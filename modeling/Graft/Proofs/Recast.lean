import Graft.Engine.Gathering

/-!
# Trees up to identities and places

Two trees may differ in the identities of their nodes only, in the place where they stand in their texts, or in where their
rules have looked. A recasting changes all three at once. Gathering children depends on none of them: it commutes with every
recasting.
-/

namespace Graft

namespace Region

/-- Regions with the same offset and length are the same. -/
@[ext] theorem ext {r r' : Region} (ho : r.offset = r'.offset) (hl : r.length = r'.length) : r = r' := by
  obtain ⟨offset, length⟩ := r
  cases ho
  cases hl
  rfl

/-- A region that lies `distance` bytes further on. -/
def movedBy (distance : Nat) (r : Region) : Region :=
  ⟨r.offset + distance, r.length⟩

@[simp] theorem offset_movedBy (distance : Nat) (r : Region) : (r.movedBy distance).offset = r.offset + distance := rfl

@[simp] theorem length_movedBy (distance : Nat) (r : Region) : (r.movedBy distance).length = r.length := rfl

@[simp] theorem stop_movedBy (distance : Nat) (r : Region) : (r.movedBy distance).stop = r.stop + distance := by
  simp only [stop, offset_movedBy, length_movedBy]
  omega

@[simp] theorem isEmpty_movedBy (distance : Nat) (r : Region) : (r.movedBy distance).isEmpty = r.isEmpty := rfl

@[simp] theorem movedBy_zero (r : Region) : r.movedBy 0 = r := rfl

/-- Moving a region twice is moving it by both distances. -/
theorem movedBy_movedBy (a b : Nat) (r : Region) : (r.movedBy a).movedBy b = r.movedBy (a + b) := by
  simp [movedBy, Nat.add_assoc]

/-- Regions that are the same once moved are the same. -/
theorem movedBy_inj {distance : Nat} {r r' : Region} (h : r.movedBy distance = r'.movedBy distance) : r = r' := by
  obtain ⟨a, b⟩ := r
  obtain ⟨a', b'⟩ := r'
  simp only [movedBy, mk.injEq] at h ⊢
  exact ⟨by omega, h.2⟩

/-- Moved regions expand to the moved expansion. -/
theorem movedBy_expandTo (distance : Nat) (r other : Region) :
    (r.expandTo other).movedBy distance = (r.movedBy distance).expandTo (other.movedBy distance) := by
  simp only [expandTo, stop, movedBy, mk.injEq]
  omega

/-- Widening twice to the same region is widening once. -/
theorem expandTo_expandTo_self (r other : Region) : (r.expandTo other).expandTo other = r.expandTo other := by
  simp only [expandTo, stop, mk.injEq]
  omega

end Region

/-- Other identities, places and regions of interest for the nodes of a tree. The region of interest of a container comes
from those of its attempts. -/
structure Recasting where
  identity : NodeId → NodeId
  distance : Nat
  interest : Region → Region
  interest_expandTo : ∀ r other, interest (r.expandTo other) = (interest r).expandTo (interest other)

namespace Recasting

/-- Forget identities. -/
def bare : Recasting where
  identity _ := ⟨0⟩
  distance := 0
  interest r := r
  interest_expandTo _ _ := rfl

/-- Forget identities and where rules have looked. -/
def faint : Recasting where
  identity _ := ⟨0⟩
  distance := 0
  interest _ := ⟨0, 0⟩
  interest_expandTo _ _ := rfl

/-- Move everything further on. -/
def moved (distance : Nat) : Recasting where
  identity id := id
  distance
  interest := Region.movedBy distance
  interest_expandTo := Region.movedBy_expandTo distance

/-- One recasting after another. -/
def andThen (m m' : Recasting) : Recasting where
  identity id := m'.identity (m.identity id)
  distance := m.distance + m'.distance
  interest r := m'.interest (m.interest r)
  interest_expandTo r other := by rw [m.interest_expandTo, m'.interest_expandTo]

@[simp] theorem identity_bare (id : NodeId) : bare.identity id = ⟨0⟩ := rfl

@[simp] theorem distance_bare : bare.distance = 0 := rfl

@[simp] theorem identity_moved (distance : Nat) (id : NodeId) : (moved distance).identity id = id := rfl

@[simp] theorem distance_moved (distance : Nat) : (moved distance).distance = distance := rfl

/-- Moving twice is moving by both distances. -/
theorem moved_andThen_moved (j k : Nat) : (moved j).andThen (moved k) = moved (j + k) := by
  simp only [andThen, moved, Region.movedBy_movedBy]

/-- Moving and forgetting identities may be done in any order. -/
theorem bare_andThen_moved (k : Nat) : bare.andThen (moved k) = (moved k).andThen bare := by
  simp [andThen, bare, moved]

/-- Identities that are forgotten may be forgotten before. -/
theorem bare_andThen {m : Recasting} (hm : ∀ id, m.identity id = ⟨0⟩) : bare.andThen m = m := by
  obtain ⟨identity, distance, interest, h⟩ := m
  simp only at hm
  simp [andThen, bare, funext hm]

end Recasting

/-! ## Statements, derivations and attempts -/

namespace Statement

mutual

/-- A statement with other identities and places. -/
def recast (m : Recasting) : Statement → Statement
  | leaf id region text => leaf (m.identity id) (region.movedBy m.distance) text
  | group id region children => group (m.identity id) (region.movedBy m.distance) (recastList m children)
  | value id region name text body =>
    value (m.identity id) (region.movedBy m.distance) name text (body.recast m)

/-- Several statements with other identities and places. -/
def recastList (m : Recasting) : List Statement → List Statement
  | [] => []
  | s :: rest => s.recast m :: recastList m rest

end

/-- Several statements are recast one by one. -/
theorem recastList_eq_map (m : Recasting) (statements : List Statement) :
    recastList m statements = statements.map (recast m) := by
  induction statements with
  | nil => rfl
  | cons s rest ih => rw [recastList, ih, List.map_cons]

@[simp] theorem recast_leaf (m : Recasting) (id : NodeId) (region : Region) (text : String) :
    (leaf id region text).recast m = leaf (m.identity id) (region.movedBy m.distance) text := by
  rw [recast]

@[simp] theorem recast_group (m : Recasting) (id : NodeId) (region : Region) (children : List Statement) :
    (group id region children).recast m =
      group (m.identity id) (region.movedBy m.distance) (children.map (recast m)) := by
  rw [recast, recastList_eq_map]

@[simp] theorem recast_value (m : Recasting) (id : NodeId) (region : Region) (name text : String) (body : Statement) :
    (value id region name text body).recast m =
      value (m.identity id) (region.movedBy m.distance) name text (body.recast m) := by
  rw [recast]

@[simp] theorem region_recast (m : Recasting) (s : Statement) : (s.recast m).region = s.region.movedBy m.distance := by
  cases s <;> simp [region]

@[simp] theorem children_recast (m : Recasting) (s : Statement) :
    (s.recast m).children = s.children.map (recast m) := by
  cases s <;> simp [children]

@[simp] theorem renamed_recast (m : Recasting) (name : String) (s : Statement) :
    (s.renamed name).recast m = (s.recast m).renamed name := by
  cases s <;> simp [renamed]

/-- Recasting keeps the name. -/
theorem name?_recast (m : Recasting) (s : Statement) : (s.recast m).name? = s.name? := by
  cases s <;> simp [name?]

/-- Recasting keeps the text. -/
theorem text_recast (m : Recasting) (s : Statement) : (s.recast m).text = s.text := by
  cases s <;> simp [text]

mutual

/-- The text that a statement was read from stays with it. -/
theorem rawText_recast (m : Recasting) (s : Statement) : (s.recast m).rawText = s.rawText := by
  cases s with
  | leaf id region text => rw [recast_leaf, rawText_leaf, rawText_leaf]
  | group id region children =>
    rw [recast, rawText_group, rawText_group]
    exact rawTextOfList_recast m children
  | value id region name text body =>
    rw [recast, rawText_value, rawText_value]
    exact rawText_recast m body

/-- Recasting keeps the raw text of several statements. -/
theorem rawTextOfList_recast (m : Recasting) (statements : List Statement) :
    rawTextOfList (recastList m statements) = rawTextOfList statements := by
  cases statements with
  | nil => rw [recastList]
  | cons s rest => rw [recastList, rawTextOfList_cons, rawTextOfList_cons, rawText_recast m s, rawTextOfList_recast m rest]

end

end Statement

namespace Derivation

mutual

/-- A derivation with other regions of interest. -/
def recast (m : Recasting) : Derivation → Derivation
  | leaf rule interest => leaf rule (m.interest interest)
  | group rule interest children edges chosen => group rule (m.interest interest) (recastList m children) edges chosen
  | wrap rule interest inner => wrap rule (m.interest interest) (inner.recast m)

/-- Several derivations with other regions of interest. -/
def recastList (m : Recasting) : List Derivation → List Derivation
  | [] => []
  | d :: rest => d.recast m :: recastList m rest

end

/-- Several derivations are recast one by one. -/
theorem recastList_eq_map (m : Recasting) (derivations : List Derivation) :
    recastList m derivations = derivations.map (recast m) := by
  induction derivations with
  | nil => rfl
  | cons d rest ih => rw [recastList, ih, List.map_cons]

@[simp] theorem recast_leaf (m : Recasting) (rule : RuleId) (interest : Region) :
    (leaf rule interest).recast m = leaf rule (m.interest interest) := by
  rw [recast]

@[simp] theorem recast_group (m : Recasting) (rule : RuleId) (interest : Region) (children : List Derivation)
    (edges : List Nat) (chosen : Option Nat) :
    (group rule interest children edges chosen).recast m =
      group rule (m.interest interest) (children.map (recast m)) edges chosen := by
  rw [recast, recastList_eq_map]

@[simp] theorem recast_wrap (m : Recasting) (rule : RuleId) (interest : Region) (inner : Derivation) :
    (wrap rule interest inner).recast m = wrap rule (m.interest interest) (inner.recast m) := by
  rw [recast]

mutual

/-- A derivation holds no identities. -/
theorem recast_bare (d : Derivation) : d.recast .bare = d := by
  cases d with
  | leaf rule interest => rw [recast_leaf, Recasting.bare]
  | group rule interest children edges chosen => rw [recast, recastList_bare children, Recasting.bare]
  | wrap rule interest inner => rw [recast, recast_bare inner, Recasting.bare]

/-- Derivations have no identities that could be taken from them. -/
theorem recastList_bare (derivations : List Derivation) : recastList .bare derivations = derivations := by
  cases derivations with
  | nil => rfl
  | cons d rest => rw [recastList, recast_bare d, recastList_bare rest]

end

@[simp] theorem rule_recast (m : Recasting) (d : Derivation) : (d.recast m).rule = d.rule := by
  cases d <;> simp [rule]

@[simp] theorem interest_recast (m : Recasting) (d : Derivation) : (d.recast m).interest = m.interest d.interest := by
  cases d <;> simp [interest]

@[simp] theorem children_recast (m : Recasting) (d : Derivation) :
    (d.recast m).children = d.children.map (recast m) := by
  cases d <;> simp [children]

@[simp] theorem around_recast (m : Recasting) (rule : RuleId) (d : Derivation) :
    (around rule d).recast m = around rule (d.recast m) := by
  simp [around]

end Derivation

namespace Attempt

/-- An attempt with other identities, places and regions of interest. -/
def recast (m : Recasting) (a : Attempt) : Attempt :=
  ⟨a.statement.map (·.recast m), a.derivation.recast m⟩

@[simp] theorem statement_recast (m : Recasting) (a : Attempt) :
    (a.recast m).statement = a.statement.map (·.recast m) := rfl

@[simp] theorem derivation_recast (m : Recasting) (a : Attempt) : (a.recast m).derivation = a.derivation.recast m := rfl

@[simp] theorem interest_recast (m : Recasting) (a : Attempt) : (a.recast m).interest = m.interest a.interest :=
  Derivation.interest_recast m a.derivation

@[simp] theorem success_recast (m : Recasting) (s : Statement) (d : Derivation) :
    (success s d).recast m = success (s.recast m) (d.recast m) := rfl

@[simp] theorem failure_recast (m : Recasting) (rule : RuleId) (interest : Region) :
    (failure rule interest).recast m = failure rule (m.interest interest) := by
  simp [failure, recast]

end Attempt

/-! ## What is the same when recast -/

/-- Statements that are the same when recast lie in the same region. -/
theorem Statement.region_of_same {m : Recasting} {s t : Statement} (h : s.recast m = t.recast m) : s.region = t.region := by
  have h1 := congrArg region h
  rw [region_recast, region_recast] at h1
  exact Region.movedBy_inj h1

namespace Attempt

variable {m : Recasting} {a b : Attempt}

/-- What is the same once recast fails with it. -/
theorem statement_none_of_same (h : a.recast m = b.recast m) (ha : a.statement = none) : b.statement = none := by
  have h1 := congrArg statement h
  rw [statement_recast, statement_recast, ha, Option.map_none, eq_comm, Option.map_eq_none_iff] at h1
  exact h1

/-- What is the same once recast succeeds with it, with statements that are the same once recast. -/
theorem statement_some_of_same (h : a.recast m = b.recast m) {s : Statement} (ha : a.statement = some s) :
    ∃ t, b.statement = some t ∧ s.recast m = t.recast m := by
  have h1 := congrArg statement h
  rw [statement_recast, statement_recast, ha, Option.map_some, eq_comm, Option.map_eq_some_iff] at h1
  obtain ⟨t, ht, hsame⟩ := h1
  exact ⟨t, ht, hsame.symm⟩

/-- Attempts that differ in identities only have the same derivation. -/
theorem derivation_of_same (h : a.recast .bare = b.recast .bare) : a.derivation = b.derivation := by
  have h1 := congrArg derivation h
  rwa [derivation_recast, derivation_recast, Derivation.recast_bare, Derivation.recast_bare] at h1

end Attempt

/-! ## Moving -/

namespace Statement

mutual

/-- Recasting twice is recasting by both. -/
theorem recast_recast (m m' : Recasting) (s : Statement) : (s.recast m).recast m' = s.recast (m.andThen m') := by
  cases s with
  | leaf id region text => simp [Recasting.andThen, Region.movedBy_movedBy]
  | group id region children =>
    simp only [recast, Recasting.andThen, Region.movedBy_movedBy]
    exact congrArg _ (recastList_recastList m m' children)
  | value id region name text body =>
    simp only [recast, Recasting.andThen, Region.movedBy_movedBy]
    exact congrArg _ (recast_recast m m' body)

/-- Recasting several statements twice is recasting them by both. -/
theorem recastList_recastList (m m' : Recasting) (statements : List Statement) :
    recastList m' (recastList m statements) = recastList (m.andThen m') statements := by
  cases statements with
  | nil => rfl
  | cons s rest => rw [recastList, recastList, recastList, recast_recast m m' s, recastList_recastList m m' rest]

end

mutual

/-- Statements that are the same once moved are the same. -/
theorem recast_moved_inj {k : Nat} {s t : Statement} (h : s.recast (.moved k) = t.recast (.moved k)) : s = t := by
  cases s with
  | leaf id region text =>
    cases t <;> simp only [recast, Recasting.moved, leaf.injEq, reduceCtorEq] at h
    obtain ⟨h1, h2, h3⟩ := h
    rw [h1, Region.movedBy_inj h2, h3]
  | group id region children =>
    cases t <;> simp only [recast, group.injEq, reduceCtorEq] at h
    obtain ⟨h1, h2, h3⟩ := h
    rw [Recasting.identity_moved, Recasting.identity_moved] at h1
    rw [h1, Region.movedBy_inj h2, recastList_moved_inj h3]
  | value id region name text body =>
    cases t <;> simp only [recast, value.injEq, reduceCtorEq] at h
    obtain ⟨h1, h2, h3, h4, h5⟩ := h
    rw [Recasting.identity_moved, Recasting.identity_moved] at h1
    rw [h1, Region.movedBy_inj h2, h3, h4, recast_moved_inj h5]

/-- Lists of statements that are the same once moved are the same. -/
theorem recastList_moved_inj {k : Nat} {ss ts : List Statement}
    (h : recastList (.moved k) ss = recastList (.moved k) ts) : ss = ts := by
  cases ss with
  | nil =>
    cases ts with
    | nil => rfl
    | cons => simp [recastList] at h
  | cons s ss =>
    cases ts with
    | nil => simp [recastList] at h
    | cons t ts =>
      rw [recastList, recastList, List.cons.injEq] at h
      rw [recast_moved_inj h.1, recastList_moved_inj h.2]

end

end Statement

namespace Derivation

mutual

/-- Recasting a derivation twice is recasting it by both. -/
theorem recast_recast (m m' : Recasting) (d : Derivation) : (d.recast m).recast m' = d.recast (m.andThen m') := by
  cases d with
  | leaf rule interest => simp [Recasting.andThen]
  | group rule interest children edges chosen =>
    simp only [recast, Recasting.andThen]
    exact congrArg (fun cs => group rule _ cs edges chosen) (recastList_recastList m m' children)
  | wrap rule interest inner =>
    simp only [recast, Recasting.andThen]
    exact congrArg _ (recast_recast m m' inner)

/-- Recasting several derivations twice is recasting them by both. -/
theorem recastList_recastList (m m' : Recasting) (derivations : List Derivation) :
    recastList m' (recastList m derivations) = recastList (m.andThen m') derivations := by
  cases derivations with
  | nil => rfl
  | cons d rest => rw [recastList, recastList, recastList, recast_recast m m' d, recastList_recastList m m' rest]

end

mutual

/-- Derivations that are the same once moved are the same. -/
theorem recast_moved_inj {k : Nat} {d e : Derivation} (h : d.recast (.moved k) = e.recast (.moved k)) : d = e := by
  cases d with
  | leaf rule interest =>
    cases e <;> simp only [recast, leaf.injEq, reduceCtorEq] at h
    obtain ⟨h1, h2⟩ := h
    rw [h1, Region.movedBy_inj h2]
  | group rule interest children edges chosen =>
    cases e <;> simp only [recast, group.injEq, reduceCtorEq] at h
    obtain ⟨h1, h2, h3, h4, h5⟩ := h
    rw [h1, Region.movedBy_inj h2, recastList_moved_inj h3, h4, h5]
  | wrap rule interest inner =>
    cases e <;> simp only [recast, wrap.injEq, reduceCtorEq] at h
    obtain ⟨h1, h2, h3⟩ := h
    rw [h1, Region.movedBy_inj h2, recast_moved_inj h3]

/-- Lists of derivations that are the same once moved are the same. -/
theorem recastList_moved_inj {k : Nat} {ds es : List Derivation}
    (h : recastList (.moved k) ds = recastList (.moved k) es) : ds = es := by
  cases ds with
  | nil =>
    cases es with
    | nil => rfl
    | cons => simp [recastList] at h
  | cons d ds =>
    cases es with
    | nil => simp [recastList] at h
    | cons e es =>
      rw [recastList, recastList, List.cons.injEq] at h
      rw [recast_moved_inj h.1, recastList_moved_inj h.2]

end

end Derivation

/-- One attempt is another one that stands at `p` where the other stands at `o`. -/
def Attempt.Shifted (o p : Nat) (a b : Attempt) : Prop :=
  a.recast (.moved p) = b.recast (.moved o)

namespace Attempt

/-- Recasting an attempt twice is recasting it by both. -/
theorem recast_recast (m m' : Recasting) (a : Attempt) : (a.recast m).recast m' = a.recast (m.andThen m') := by
  obtain ⟨statement, d⟩ := a
  cases statement with
  | none => simp [recast, Derivation.recast_recast]
  | some s => simp [recast, Derivation.recast_recast, Statement.recast_recast]

/-- Moving an attempt twice is moving it by both distances. -/
theorem recast_moved_moved (j k : Nat) (a : Attempt) :
    (a.recast (.moved j)).recast (.moved k) = a.recast (.moved (j + k)) := by
  rw [recast_recast, Recasting.moved_andThen_moved]

/-- Attempts that differ in their identities only agree under every recasting that forgets them. -/
theorem recast_eq_of_bare {m : Recasting} (hm : ∀ id, m.identity id = ⟨0⟩) {a b : Attempt}
    (h : a.recast .bare = b.recast .bare) : a.recast m = b.recast m := by
  have h1 := congrArg (recast m) h
  rw [recast_recast, recast_recast, Recasting.bare_andThen hm] at h1
  exact h1

/-- Attempts that are the same once moved are the same. -/
theorem recast_moved_inj {k : Nat} {a b : Attempt} (h : a.recast (.moved k) = b.recast (.moved k)) : a = b := by
  obtain ⟨s, d⟩ := a
  obtain ⟨t, e⟩ := b
  simp only [recast, mk.injEq] at h ⊢
  refine ⟨?_, Derivation.recast_moved_inj h.2⟩
  cases s with
  | none =>
    cases t with
    | none => rfl
    | some t => cases h.1
  | some s =>
    cases t with
    | none => cases h.1
    | some t => rw [Statement.recast_moved_inj (Option.some.inj h.1)]

namespace Shifted

variable {o p : Nat} {a b : Attempt}

/-- Only the distance matters. -/
theorem of_distance {o' p' : Nat} (h : Shifted o' p' a b) (hd : o' + p = p' + o) : Shifted o p a b := by
  apply recast_moved_inj (k := p')
  rw [recast_moved_moved, recast_moved_moved, Nat.add_comm p p', ← recast_moved_moved, h, recast_moved_moved, hd,
    Nat.add_comm p' o]

end Shifted

end Attempt

/-! ## Gathering -/

namespace Engine

/-- A child with other identities, places and regions of interest. -/
def Taken.recast (m : Recasting) (child : Taken) : Taken :=
  ⟨child.edge, child.statement.recast m, child.derivation.recast m⟩

namespace Gathering

/-- What has been gathered, with other identities, places and regions of interest. -/
def recast (m : Recasting) (g : Gathering) : Gathering :=
  ⟨g.start + m.distance, g.cursor + m.distance, m.interest g.interest, g.children.map (Taken.recast m)⟩

@[simp] theorem recast_push (m : Recasting) (g : Gathering) (child : Taken) :
    (g.push child).recast m = (g.recast m).push (child.recast m) := by
  simp [push, recast, Taken.recast]

@[simp] theorem recast_pushMany (m : Recasting) (g : Gathering) (child : Taken) (count : Nat) :
    (g.pushMany child count).recast m = (g.recast m).pushMany (child.recast m) count := by
  induction count generalizing g with
  | zero => rfl
  | succ count ih => rw [pushMany, pushMany, ih, recast_push]

@[simp] theorem interest_pushMany (g : Gathering) (child : Taken) (count : Nat) :
    (g.pushMany child count).interest = g.interest := by
  induction count generalizing g with
  | zero => rfl
  | succ count ih => rw [pushMany, ih, push]

/-- Once a child was taken, taking it again leaves the cursor at its end. -/
theorem cursor_pushMany_self (g : Gathering) (child : Taken) (count : Nat) :
    ((g.push child).pushMany child count).cursor = (g.push child).cursor := by
  induction count generalizing g with
  | zero => rfl
  | succ count ih =>
    rw [pushMany, ih]
    rfl

/-- Gathering that has looked somewhere more. -/
def look (g : Gathering) (interest : Region) : Gathering :=
  { g with interest := g.interest.expandTo interest }

/-- Looking at the same once more widens nothing. -/
theorem look_look (g : Gathering) (interest : Region) : (g.look interest).look interest = g.look interest := by
  simp only [look, Region.expandTo_expandTo_self]

@[simp] theorem recast_look (m : Recasting) (g : Gathering) (interest : Region) :
    (g.look interest).recast m = (g.recast m).look (m.interest interest) := by
  simp [look, recast, m.interest_expandTo]

end Gathering

variable [Pattern.Compiler]

namespace Progress

/-- An attempt that fails is only looked at. -/
theorem accept_failure {p : Progress} {a : Attempt} (h : a.statement = none) :
    p.accept a = (.failed, { p with gathering := p.gathering.look a.interest }) := by
  simp only [accept, h, Gathering.look]

/-- A child that reads nothing is taken as often as it is missing. -/
theorem accept_empty {p : Progress} {a : Attempt} {s : Statement} (h : a.statement = some s)
    (he : s.region.isEmpty = true) :
    p.accept a =
      (.empty,
        { gathering := (p.gathering.look a.interest).pushMany ⟨p.lane.index, s, a.derivation⟩ p.lane.counter.missing
          lane := { p.lane with counter := p.lane.counter.addMissing }
          matched := true }) := by
  simp only [accept, h, he, if_true, Gathering.look]

/-- A child that reads something is taken once. -/
theorem accept_consumed {p : Progress} {a : Attempt} {s : Statement} (h : a.statement = some s)
    (he : s.region.isEmpty = false) :
    p.accept a =
      (.consumed,
        { gathering := (p.gathering.look a.interest).push ⟨p.lane.index, s, a.derivation⟩
          lane := { p.lane with counter := p.lane.counter.addOne }
          matched := true }) := by
  simp [accept, h, he, Gathering.look]

/-- Taking in an attempt changes nothing of a lane but its counter. -/
theorem lane_accept (p : Progress) (a : Attempt) :
    (p.accept a).2.lane.index = p.lane.index ∧ (p.accept a).2.lane.edge = p.lane.edge ∧
      (p.accept a).2.lane.context = p.lane.context := by
  cases hs : a.statement with
  | none =>
    rw [accept_failure hs]
    exact ⟨rfl, rfl, rfl⟩
  | some s =>
    cases he : s.region.isEmpty with
    | true =>
      rw [accept_empty hs he]
      exact ⟨rfl, rfl, rfl⟩
    | false =>
      rw [accept_consumed hs he]
      exact ⟨rfl, rfl, rfl⟩

/-- Only an attempt without a result fails to be taken. -/
theorem statement_of_failed {p : Progress} {a : Attempt} (h : (p.accept a).1 = .failed) : a.statement = none := by
  cases hs : a.statement with
  | none => rfl
  | some s =>
    cases he : s.region.isEmpty with
    | true =>
      rw [accept_empty hs he] at h
      cases h
    | false =>
      rw [accept_consumed hs he] at h
      cases h

/-- Only a child that reads something is consumed. -/
theorem statement_of_consumed {p : Progress} {a : Attempt} (h : (p.accept a).1 = .consumed) :
    ∃ s, a.statement = some s ∧ s.region.isEmpty = false := by
  cases hs : a.statement with
  | none =>
    rw [accept_failure hs] at h
    cases h
  | some s =>
    cases he : s.region.isEmpty with
    | true =>
      rw [accept_empty hs he] at h
      cases h
    | false => exact ⟨s, rfl, he⟩

/-- Only an attempt that succeeds is a match. -/
theorem matched_accept (p : Progress) (a : Attempt) :
    (p.accept a).2.matched = false ↔ p.matched = false ∧ a.statement = none := by
  cases hs : a.statement with
  | none => rw [accept_failure hs]; simp
  | some s =>
    cases he : s.region.isEmpty with
    | true => rw [accept_empty hs he]; simp
    | false => rw [accept_consumed hs he]; simp

/-- Looking in vain a second time changes nothing. -/
theorem accept_accept_failed {p : Progress} {a : Attempt} (h : (p.accept a).1 = .failed) :
    (p.accept a).2.accept a = (.failed, (p.accept a).2) := by
  have hs := statement_of_failed h
  rw [accept_failure hs, accept_failure hs, Gathering.look_look]

/-- Every attempt widens the region of interest. -/
theorem interest_accept (p : Progress) (a : Attempt) :
    (p.accept a).2.gathering.interest = p.gathering.interest.expandTo a.interest := by
  cases hs : a.statement with
  | none => rw [accept_failure hs, Gathering.look]
  | some s =>
    cases he : s.region.isEmpty with
    | true => rw [accept_empty hs he, Gathering.interest_pushMany, Gathering.look]
    | false => rw [accept_consumed hs he, Gathering.push, Gathering.look]

/-- The children gathered after an attempt are those before it, and what it has read. -/
theorem mem_children_accept {p : Progress} {a : Attempt} {child : Taken}
    (h : child ∈ (p.accept a).2.gathering.children) :
    child ∈ p.gathering.children ∨ ∃ s, a.statement = some s ∧ child = ⟨p.lane.index, s, a.derivation⟩ := by
  have hmany : ∀ (count : Nat) (g : Gathering) (other : Taken), child ∈ (g.pushMany other count).children →
      child ∈ g.children ∨ child = other := by
    intro count
    induction count with
    | zero => exact fun g other hm => Or.inl hm
    | succ count ih =>
      intro g other hm
      rcases ih (g.push other) other hm with hm | rfl
      · exact Array.mem_push.1 hm
      · exact Or.inr rfl
  cases hs : a.statement with
  | none =>
    rw [accept_failure hs] at h
    exact Or.inl h
  | some s =>
    cases he : s.region.isEmpty with
    | true =>
      rw [accept_empty hs he] at h
      exact (hmany _ _ _ h).imp id fun hc => ⟨s, rfl, hc⟩
    | false =>
      rw [accept_consumed hs he] at h
      exact (Array.mem_push.1 h).imp id fun hc => ⟨s, rfl, hc⟩

/-- Progress with other identities, places and regions of interest. -/
def recast (m : Recasting) (p : Progress) : Progress :=
  { p with gathering := p.gathering.recast m }

/-- Taking in an attempt commutes with every recasting. -/
theorem accept_recast (m : Recasting) (p : Progress) (a : Attempt) :
    (p.recast m).accept (a.recast m) = ((p.accept a).1, (p.accept a).2.recast m) := by
  cases hs : a.statement with
  | none =>
    have hs' : (a.recast m).statement = none := by rw [Attempt.statement_recast, hs, Option.map_none]
    rw [accept_failure hs, accept_failure hs']
    simp [recast]
  | some s =>
    have hs' : (a.recast m).statement = some (s.recast m) := by rw [Attempt.statement_recast, hs, Option.map_some]
    have he' : (s.recast m).region.isEmpty = s.region.isEmpty := by
      rw [Statement.region_recast, Region.isEmpty_movedBy]
    cases he : s.region.isEmpty with
    | true =>
      rw [accept_empty hs he, accept_empty hs' (he'.trans he)]
      simp [recast, Taken.recast]
    | false =>
      rw [accept_consumed hs he, accept_consumed hs' (he'.trans he)]
      simp [recast, Taken.recast]

/-- Taking in attempts that agree, into progress that agrees, leads to progress that agrees. -/
theorem accept_congr {m m' : Recasting} {p q : Progress} {a b : Attempt} (hp : p.recast m = q.recast m')
    (ha : a.recast m = b.recast m') :
    (p.accept a).1 = (q.accept b).1 ∧ (p.accept a).2.recast m = (q.accept b).2.recast m' := by
  have h := accept_recast m p a
  rw [hp, ha, accept_recast m' q b] at h
  exact ⟨(congrArg Prod.fst h).symm, (congrArg Prod.snd h).symm⟩

end Progress

/-! ## Turns of an edge -/

section

variable (attempts : Attempts) (p : Progress)

/-- An edge that is read from scratch is read on where its attempt consumed text. -/
theorem readFresh_succ (owner : RuleId) (budget : Nat) :
    readFresh attempts owner (budget + 1) p =
      if p.lane.counter.acceptsMore then
        attempts.fresh p.lane.edge.rule p.gathering.cursor p.lane.context >>= fun a =>
          if (p.accept a).1 = .consumed then readFresh attempts owner budget (p.accept a).2 else pure (p.accept a).2
      else pure p := by
  rw [readFresh]
  split
  · refine congrArg _ (funext fun a => ?_)
    obtain ⟨step, q⟩ := p.accept a
    cases step <;> rfl
  · rfl

/-- An edge that is read on earlier nodes goes on to the next where its attempt consumed text. It is done with where its attempt
read nothing. -/
theorem readAgain_cons (earlier : Earlier) (rest : List Earlier) :
    readAgain attempts (earlier :: rest) p =
      if p.lane.counter.acceptsMore then
        attempts.again p.lane.edge.rule earlier.1 earlier.2 p.gathering.cursor p.lane.context >>= fun a =>
          if (p.accept a).1 = .consumed then readAgain attempts rest (p.accept a).2
          else pure (decide ((p.accept a).1 = .empty), (p.accept a).2)
      else pure (false, p) := by
  rw [readAgain]
  split
  · refine congrArg _ (funext fun a => ?_)
    obtain ⟨step, q⟩ := p.accept a
    cases step <;> rfl
  · rfl

end

end Engine

end Graft
