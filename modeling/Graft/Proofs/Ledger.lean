import Graft.Proofs.Identities

/-!
# One identity, one place

An identity is given out together with a place and a derivation. A ledger tells, for every identity, which ones. Attempts that
are remembered, nodes that are kept and values that are shown under another name carry an identity to other places of a tree,
but never another region or another derivation, so one ledger holds for the whole tree, through every chain of repairs.
-/

namespace Graft

open Engine

/-- For each identity the region and the derivation of the node that it was given out for. -/
abbrev Ledger := NodeId → Region × Derivation

namespace Ledger

/-- A node whose identity was given out before another one, for the region and the derivation that it has. -/
structure Tells (ledger : Ledger) (next : NodeId) (node : Earlier) : Prop where
  lt : node.1.id.index < next.index
  entry : ledger node.1.id = (node.1.region, node.2)

/-- A ledger has all the entries of another whose identities were given out before one. -/
def Extends (later ledger : Ledger) (next : NodeId) : Prop :=
  ∀ id : NodeId, id.index < next.index → later id = ledger id

/-- A ledger with an entry for a node. -/
def enter (ledger : Ledger) (node : Earlier) : Ledger :=
  Function.update ledger node.1.id (node.1.region, node.2)

/-- A ledger all of whose nodes were moved. -/
def placed (ledger : Ledger) (v : Region → Region) : Ledger := fun id =>
  (v (ledger id).1, (ledger id).2.placed v)

variable {ledger later last : Ledger} {next after final : NodeId} {node : Earlier}

theorem Extends.refl (ledger : Ledger) (next : NodeId) : ledger.Extends ledger next := fun _ _ => rfl

theorem Extends.trans (h : later.Extends ledger next) (h' : last.Extends later after) (hn : next.index ≤ after.index) :
    last.Extends ledger next := fun id hid =>
  (h' id (Nat.lt_of_lt_of_le hid hn)).trans (h id hid)

/-- An entry for a new identity leaves the others as they are. -/
theorem extends_enter (hn : next.index ≤ node.1.id.index) : (ledger.enter node).Extends ledger next := by
  intro id hid
  rw [enter, Function.update_of_ne]
  rintro rfl
  exact Nat.lt_irrefl _ (Nat.lt_of_lt_of_le hid hn)

/-- A ledger tells of the nodes that are entered. -/
theorem tells_enter (hn : node.1.id.index < next.index) : (ledger.enter node).Tells next node :=
  ⟨hn, Function.update_self ..⟩

/-- What a ledger tells, later ones tell, too. -/
theorem Tells.extends (h : ledger.Tells next node) (he : later.Extends ledger next) (hn : next.index ≤ after.index) :
    later.Tells after node :=
  ⟨Nat.lt_of_lt_of_le h.lt hn, (he _ h.lt).trans h.entry⟩

/-- A value that is shown under another name keeps its identity, its region and its derivation. -/
theorem Tells.shown {s : Statement} {d : Derivation} (h : ledger.Tells next (s, d)) (name : Option String) :
    ledger.Tells next (Reading.shown name s, d) :=
  ⟨by rw [Reading.id_shown]; exact h.lt, by rw [Reading.id_shown, Reading.region_shown]; exact h.entry⟩

theorem Tells.placed (h : ledger.Tells next node) (v : Region → Region) :
    (ledger.placed v).Tells next (node.1.placed v, node.2.placed v) := by
  refine ⟨by rw [Statement.id_placed]; exact h.lt, ?_⟩
  simp only [Ledger.placed, Statement.id_placed, Statement.region_placed, h.entry]

/-- Nodes with one identity have one region and one derivation. -/
theorem Tells.eq_of_id_eq {other : Earlier} (h : ledger.Tells next node) (h' : ledger.Tells next other)
    (hid : node.1.id = other.1.id) : node.1.region = other.1.region ∧ node.2 = other.2 :=
  Prod.mk.inj (h.entry.symm.trans ((congrArg ledger hid).trans h'.entry))

end Ledger

/-! ## Attempts -/

/-- A ledger tells of all nodes that an attempt has read. -/
def Attempt.Told (ledger : Ledger) (next : NodeId) (a : Attempt) : Prop :=
  ∀ s, a.statement = some s → ∀ node ∈ s.walk a.derivation, ledger.Tells next node

variable {old : List Earlier} {ledger later last : Ledger} {next after : NodeId} {a : Attempt} {g : Gathering}

theorem Attempt.Told.of_failure (h : a.statement = none) (ledger : Ledger) (next : NodeId) : a.Told ledger next := by
  intro s hs
  rw [h] at hs
  cases hs

theorem Attempt.Told.extends (h : a.Told ledger next) (he : later.Extends ledger next) (hn : next.index ≤ after.index) :
    a.Told later after :=
  fun s hs node hm => (h s hs node hm).extends he hn

/-- A ledger tells of a node under whatever name it is shown. -/
theorem Attempt.Told.shown (h : a.Told ledger next) (shownAs : Option String) :
    ∀ st, a.statement = some st → ∀ node ∈ (Reading.shown shownAs st).walk a.derivation, ledger.Tells next node := by
  intro st hs node hm
  rcases Statement.mem_walk_shown hm with rfl | hm
  · exact (h st hs _ (EditedTree.mem_walk_self _ _)).shown shownAs
  · exact h st hs node hm

/-- A ledger that tells of the children of a group and of the group itself tells of all its nodes. -/
theorem Engine.Gathering.told
    (h : ∀ child ∈ g.children, ∀ node ∈ child.statement.walk child.derivation, ledger.Tells next node) {id : NodeId}
    {rule : RuleId} {chosen : Option Nat} (hself : ledger.Tells next (g.statement id, g.derivation rule chosen)) :
    ∀ node ∈ (g.statement id).walk (g.derivation rule chosen), ledger.Tells next node := by
  intro node hm
  rcases Statement.mem_walk_group.1 hm with rfl | ⟨child, hc, hm⟩
  · exact hself
  · exact h child (Array.mem_toList_iff.1 hc) node hm

variable [Pattern.Compiler]

/-- A ledger tells of some earlier nodes and of all nodes that are remembered. -/
structure State.Told (old : List Earlier) (ledger : Ledger) (s : State) : Prop where
  old : ∀ node ∈ old, ledger.Tells s.nextId node
  memo : ∀ (key : MemoKey) (entry : MemoEntry), s.memo[key]? = some entry → entry.attempt.Told ledger s.nextId

/-- A ledger has grown by identities that were given out from one on, and tells of what is remembered in the end. -/
structure Ledger.Grown (old : List Earlier) (ledger later : Ledger) (first : NodeId) (t : State) : Prop where
  nextId : first.index ≤ t.nextId.index
  agrees : later.Extends ledger first
  told : t.Told old later

/-- A ledger that tells of some earlier nodes and of what is remembered can be extended so that it tells of what an attempt
reads, under the name that it is shown by, too. -/
def Telling (old : List Earlier) : Deed := fun shownAs s _ _ _ a t =>
  ∀ ledger, s.Told old ledger → ∃ later, ledger.Grown old later s.nextId t ∧
    ∀ st, a.statement = some st → ∀ node ∈ (Reading.shown shownAs st).walk a.derivation, later.Tells t.nextId node

variable {setting : Setting} {s t u : State} {rule : RuleId} {offset : Nat} {context : Context}

theorem State.Told.extends (h : s.Told old ledger) (he : later.Extends ledger s.nextId) (hm : t.memo = s.memo)
    (hn : s.nextId.index ≤ t.nextId.index) : t.Told old later := by
  refine ⟨fun node hmem => (h.old node hmem).extends he hn, ?_⟩
  rw [hm]
  exact fun key entry hentry => (h.memo key entry hentry).extends he hn

namespace Ledger.Grown

/-- Where no node is given an identity, the ledger stays. -/
theorem of_eq (h : s.Told old ledger) (hm : t.memo = s.memo) (hn : s.nextId.index ≤ t.nextId.index) :
    ledger.Grown old ledger s.nextId t :=
  ⟨hn, .refl _ _, h.extends (.refl _ _) hm hn⟩

theorem trans {first : NodeId} (h : ledger.Grown old later first t) (h' : later.Grown old last t.nextId u) :
    ledger.Grown old last first u :=
  ⟨Nat.le_trans h.nextId h'.nextId, h.agrees.trans h'.agrees h.nextId, h'.told⟩

/-- A node is given the next identity. -/
theorem enter (h : s.Told old ledger) (node : Earlier) (hid : node.1.id = s.nextId) (hm : t.memo = s.memo)
    (hn : t.nextId = s.nextId.next) :
    ledger.Grown old (ledger.enter node) s.nextId t ∧ (ledger.enter node).Tells t.nextId node := by
  have hlt : s.nextId.index < t.nextId.index := by
    rw [hn]
    exact Nat.lt_succ_self _
  have hext := @Ledger.extends_enter ledger s.nextId node (Nat.le_of_eq (congrArg NodeId.index hid.symm))
  exact ⟨⟨Nat.le_of_lt hlt, hext, h.extends hext hm (Nat.le_of_lt hlt)⟩, Ledger.tells_enter (hid ▸ hlt)⟩

/-- What was told of before is told of still. -/
theorem tells {first : NodeId} (h : ledger.Grown old later first t) {node : Earlier} (hnode : ledger.Tells first node) :
    later.Tells t.nextId node :=
  hnode.extends h.agrees h.nextId

end Ledger.Grown

/-- What is gathered by attempts that a ledger can tell of, a ledger can tell of. -/
theorem Gathers.telling {edges : List Edge} {live : Context} (h : Gathers (Telling old) edges live offset s g t)
    (hs : s.Told old ledger) :
    ∃ later, ledger.Grown old later s.nextId t ∧
      ∀ child ∈ g.children, ∀ node ∈ child.statement.walk child.derivation, later.Tells t.nextId node := by
  induction h with
  | begin => exact ⟨ledger, .of_eq hs rfl (Nat.le_refl _), by simp [Gathering.begin]⟩
  | @accept p a t u _ opens does ih =>
    obtain ⟨later, hgrown, hchildren⟩ := ih
    obtain ⟨last, hgrown', hnodes⟩ := does later hgrown.told
    refine ⟨last, hgrown.trans hgrown', ?_⟩
    intro child hm node hn
    rcases Progress.mem_children_accept hm with hm | ⟨st, hst, rfl⟩
    · exact hgrown'.tells (hchildren child hm node hn)
    · exact hnodes st hst node hn

/-- When a body has read something, a ledger can tell of it. -/
theorem Does.telling (h : Does setting (Telling old) s rule offset context a t) (hs : s.Told old ledger) :
    ∃ later, ledger.Grown old later s.nextId t ∧ a.Told later t.nextId := by
  have hopened : s.opened.Told old ledger := hs.extends (.refl _ _) rfl (Nat.le_refl _)
  cases h with
  | unmatched rules boundary => exact ⟨ledger, .of_eq hs rfl (Nat.le_refl _), .of_failure rfl _ _⟩
  | @matched kind binding pattern length text rules found cut =>
    obtain ⟨hgrown, hself⟩ := Ledger.Grown.enter (t := (s.consuming kind text).issued) hs
      (.leaf s.nextId ⟨offset, Text.size text⟩ text,
        .leaf rule ⟨offset, (pattern.matchFront ((Text.bytes setting.input).drop offset)).examined⟩)
      rfl (State.memo_consuming s kind text) (congrArg NodeId.next (State.nextId_consuming s kind text))
    refine ⟨_, hgrown, ?_⟩
    intro st hst node hm
    cases hst
    obtain rfl := List.mem_singleton.1 (Statement.walk_leaf _ _ _ _ ▸ hm)
    exact hself
  | @full kind edges g t chosen rules plain gathers =>
    obtain ⟨later, hgrown, hchildren⟩ := gathers.telling hs
    obtain ⟨hroot, hself⟩ := Ledger.Grown.enter (t := t.issued) hgrown.told (g.statement t.nextId, g.derivation rule chosen)
      rfl rfl rfl
    refine ⟨_, hgrown.trans hroot, ?_⟩
    intro st hst
    cases hst
    exact Gathering.told (fun child hc node hm => hroot.tells (hchildren child hc node hm)) hself
  | short rules plain gathers =>
    obtain ⟨later, hgrown, _⟩ := gathers.telling hs
    exact ⟨later, hgrown.trans (.of_eq hgrown.told rfl (Nat.le_refl _)), .of_failure rfl _ _⟩
  | missed rules gathers nothing =>
    obtain ⟨later, hgrown, _⟩ := gathers.telling hs
    exact ⟨later, hgrown, .of_failure rfl _ _⟩
  | @valued nonEmpty edges g t name rules gathers =>
    obtain ⟨later, hgrown, hchildren⟩ := gathers.telling hopened
    -- the body is given its identity first, and the value around it the next one
    obtain ⟨hbody, hinner⟩ := Ledger.Grown.enter (t := t.issued.closed) hgrown.told
      (g.statement t.nextId, g.derivation rule none) rfl rfl rfl
    obtain ⟨hvalue, hself⟩ := Ledger.Grown.enter (t := t.issued.closed.issued) hbody.told
      (.value t.nextId.next (g.statement t.nextId).region name (Run.innermost t.collected) (g.statement t.nextId),
        .around rule (g.derivation rule none)) rfl rfl rfl
    refine ⟨_, hgrown.trans (hbody.trans hvalue), ?_⟩
    intro st hst node hm
    cases hst
    change node ∈ Statement.walk (.value _ _ _ _ _) (.around rule _) at hm
    rw [Statement.walk_value] at hm
    rcases List.mem_cons.1 hm with rfl | hm
    · exact hself
    · exact Gathering.told (fun child hc node hm => hvalue.tells (hbody.tells (hchildren child hc node hm)))
        (hvalue.tells hinner) node hm
  | hollow rules gathers =>
    obtain ⟨later, hgrown, _⟩ := gathers.telling hopened
    exact ⟨later, hgrown.trans (.of_eq hgrown.told rfl (Nat.le_succ _)), .of_failure rfl _ _⟩
  | unvalued rules gathers =>
    obtain ⟨later, hgrown, _⟩ := gathers.telling hopened
    exact ⟨later, hgrown.trans (.of_eq hgrown.told rfl (Nat.le_refl _)), .of_failure rfl _ _⟩
  | @called call target inside body inner t rules resolved does =>
    obtain ⟨later, hgrown, hnodes⟩ := does ledger hs
    obtain ⟨hroot, hself⟩ := Ledger.Grown.enter (t := t.issued) hgrown.told
      (.group t.nextId body.region [Reading.shown call.shownAs body], .around rule inner) rfl rfl rfl
    refine ⟨_, hgrown.trans hroot, ?_⟩
    intro st hst node hm
    cases hst
    change node ∈ Statement.walk (.group _ _ [_]) (.around rule inner) at hm
    rw [Derivation.around, Statement.walk_call] at hm
    rcases List.mem_cons.1 hm with rfl | hm
    · exact hself
    · exact hroot.tells (hnodes body rfl node hm)
  | uncalled rules resolved failed does =>
    obtain ⟨later, hgrown, _⟩ := does ledger hs
    exact ⟨later, hgrown, .of_failure rfl _ _⟩

/-- Under another name a value that is remembered stands for the same entry. -/
theorem Telling.passes (setting : Setting) (old : List Earlier) : (Telling old).Passes setting where
  found := by
    intro shownAs s rule offset context entry hentry _ ledger hs
    exact ⟨ledger, .of_eq hs rfl (Nat.le_refl _), (hs.memo _ _ hentry).shown shownAs⟩
  read := by
    intro shownAs s rule offset context a t hdoes _ ledger hs
    obtain ⟨later, hgrown, ha⟩ := hdoes.telling (hs.extends (.refl _ _) (by simp) (by simp))
    refine ⟨later, ⟨by simpa using hgrown.nextId, by simpa using hgrown.agrees, ?_, ?_⟩, by simpa using ha.shown shownAs⟩
    · simpa using hgrown.told.old
    · intro key entry hentry
      simp only [State.nextId_left, State.nextId_remembering, State.nextId_reaching]
      rcases State.getElem?_remembering hentry with ⟨_, rfl⟩ | hentry
      · exact ha
      · rw [State.memo_reaching] at hentry
        exact hgrown.told.memo key entry hentry
  reread := by
    intro shownAs s rule offset context a t hdoes ledger hs
    obtain ⟨later, hgrown, ha⟩ := hdoes.telling (hs.extends (.refl _ _) (by simp) (by simp))
    refine ⟨later, ⟨by simpa using hgrown.nextId, by simpa using hgrown.agrees, ?_⟩, by simpa using ha.shown shownAs⟩
    exact hgrown.told.extends (.refl _ _) (by simp) (by simp)

/-- A node that is kept is one of the earlier nodes, and so are the nodes below it. -/
theorem Telling.keeps {node : Earlier} (h : ∀ below ∈ node.1.walk node.2, below ∈ old) :
    Keeps (Telling old) setting node := by
  intro _ shownAs hshown s context ledger hs
  have htold : (s.reusing setting.grammar node).Told old ledger := hs.extends (.refl _ _) (by simp) (by simp)
  refine ⟨ledger, .of_eq hs (by simp) (by simp), ?_⟩
  intro st hst below hm
  cases hst
  rw [hshown] at hm
  exact htold.old below (h below hm)

/-! ## Trees -/

namespace Tree

variable {grammar : Grammar} {tree : Tree} {next : NodeId}

/-- A ledger tells of all nodes of a tree. -/
def Told (ledger : Ledger) (next : NodeId) (tree : Tree) : Prop :=
  ∀ node ∈ tree.statement.walk tree.derivation, ledger.Tells next node

/-- Edits move all nodes of a tree, so another ledger tells of the moved ones. -/
theorem Told.edited {ledger : Ledger} (h : tree.Told ledger next) (hreached : tree.Reached grammar fun _ => True)
    {edits : List Edit} {t : EditedTree} (ht : tree.applyEdits edits = .ok t) :
    ∃ moved : Ledger, ∀ node ∈ t.nodes, moved.Tells next node := by
  obtain ⟨_, v, horigins⟩ := hreached.edited ht
  refine ⟨ledger.placed v, fun node hm => ?_⟩
  obtain ⟨origin, ho, rfl⟩ := horigins node hm
  exact (h origin ho).placed v

/-- **One ledger tells of a whole tree.** -/
theorem Issued.exists_told (h : tree.Issued grammar next) : ∃ ledger, tree.Told ledger next := by
  induction h with
  | @parse input options nextId next tree parsed =>
    obtain ⟨t, hdoes, rfl, _⟩ := parse_does (Telling.passes _ []) parsed
    obtain ⟨ledger, _, htold⟩ := hdoes (fun _ => default) ⟨by simp, by simp⟩
    exact ⟨ledger, htold _ rfl⟩
  | @repair before tree edits options nextId next issued repaired ih =>
    obtain ⟨ledger, htold⟩ := ih
    obtain ⟨rfl, ⟨_, rfl⟩ | ⟨t, ht, _, hkeep⟩⟩ | ⟨t, ht, _, hrederive⟩ := repair_course repaired
    · exact ⟨ledger, htold⟩
    · obtain ⟨moved, hmoved⟩ := htold.edited issued.reached ht
      obtain ⟨rfl, _⟩ := Grammar.keepTree_eq_ok hkeep
      exact ⟨moved, hmoved⟩
    · obtain ⟨moved, hmoved⟩ := htold.edited issued.reached ht
      obtain ⟨hshaped, _⟩ := issued.reached.edited ht
      obtain ⟨u, hdoes, rfl, _⟩ := rederive_does (Telling.passes _ t.nodes) hshaped
        (fun node hm _ => Telling.keeps fun below hb => hshaped.paired.mem_walk_trans hm hb) hrederive
      obtain ⟨later, _, htold⟩ := hdoes moved ⟨hmoved, by simp⟩
      exact ⟨later, htold _ rfl⟩
  | later _ after ih =>
    obtain ⟨ledger, htold⟩ := ih
    exact ⟨ledger, fun node hm => (htold node hm).extends (.refl _ _) after⟩

end Tree

end Graft
