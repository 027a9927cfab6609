import Mathlib.Data.List.Forall2
import Graft.Proofs.Lookups
import Graft.Proofs.Placed

/-!
# Contents

What two statements are compared by is a tree of its own: the name and the text of a statement, and the contents of its scopes.
The comparison walks two statements from scope to scope, whatever stands between them, and finds them equal exactly where these
trees are. So it is an equivalence, it does not see identities and regions, and it tells statements apart whose tokens differ.
-/

namespace Graft

/-- A test of pairs does not see that members of a list are known to be members. -/
theorem List.all_attach_zip {α β : Type} (l : List α) (r : List β) (f : α → β → Bool) :
    ((l.attach.zip r).all fun p => f p.1.1 p.2) = (l.zip r).all fun p => f p.1 p.2 := by
  have hzip : l.zip r = (l.attach.zip r).map (Prod.map Subtype.val id) := by
    rw [← List.zip_map_left, List.attach_map_subtype_val]
  rw [hzip, List.all_map]
  rfl

/-- What a statement says: its name, its text, and what its scopes say. -/
inductive Contents where
  | node (name : Option String) (text : String) (scopes : List Contents)

namespace Contents

/-- The names and texts of several contents and of all below them, in the order of a walk from the top and from left to
right. -/
def entries : List Contents → List (Option String × String)
  | [] => []
  | node name text scopes :: rest => (name, text) :: entries scopes ++ entries rest

end Contents

namespace Statement

/-- What holds of a statement when it holds of its scopes holds of every statement. -/
@[elab_as_elim]
theorem fromScopes {motive : Statement → Prop} (node : ∀ s, (∀ v ∈ s.scopes, motive v) → motive s)
    (s : Statement) : motive s :=
  node s fun v _ => fromScopes node v
termination_by sizeOf s
decreasing_by exact sizeOf_lt_of_mem_scopes ‹_›

/-- The contents of a statement. -/
def contents (s : Statement) : Contents :=
  .node s.name? s.text (s.scopes.attach.map fun ⟨v, _⟩ => v.contents)
termination_by sizeOf s
decreasing_by exact sizeOf_lt_of_mem_scopes ‹_›

theorem contents_eq (s : Statement) : s.contents = .node s.name? s.text (s.scopes.map contents) := by
  rw [contents]
  simp

/-! ## Comparing contents -/

theorem contentsEqual_eq (s t : Statement) :
    s.contentsEqual t = (s.name? == t.name? && s.text == t.text && s.scopes.length == t.scopes.length &&
      (s.scopes.zip t.scopes).all fun p => p.1.contentsEqual p.2) := by
  rw [contentsEqual, ← List.all_attach_zip]

/-- The comparison is told by names, texts, and the scopes pair by pair. -/
theorem contentsEqual_iff_forall₂ {s t : Statement} :
    s.contentsEqual t = true ↔
      s.name? = t.name? ∧ s.text = t.text ∧ List.Forall₂ (fun v w => v.contentsEqual w = true) s.scopes t.scopes := by
  rw [contentsEqual_eq, List.forall₂_iff_zip]
  simp [and_assoc]

/-- Statements compare as equal exactly where their contents are. -/
theorem contentsEqual_iff {s t : Statement} : s.contentsEqual t = true ↔ s.contents = t.contents := by
  induction s using fromScopes generalizing t with
  | node s ih =>
    have hscopes : List.Forall₂ (fun v w => v.contentsEqual w = true) s.scopes t.scopes ↔
        s.scopes.map contents = t.scopes.map contents := by
      rw [← List.forall₂_eq_eq_eq, List.forall₂_map_left_iff, List.forall₂_map_right_iff, List.forall₂_iff_zip,
        List.forall₂_iff_zip]
      refine and_congr_right fun _ => forall₂_congr fun v w => imp_congr_right fun hm => ?_
      exact ih v (List.of_mem_zip hm).1
    rw [contentsEqual_iff_forall₂, hscopes, contents_eq s, contents_eq t, Contents.node.injEq]

/-! ## Identities and regions -/

/-- A statement without its identities and regions. -/
def stripped (s : Statement) : Statement :=
  (s.recast .bare).placed fun _ => ⟨0, 0⟩

mutual

/-- The scopes of a statement with other identities and places. -/
theorem scopes_recast (m : Recasting) (s : Statement) : (s.recast m).scopes = s.scopes.map (recast m) := by
  cases s with
  | leaf id region text => simp [scopes]
  | group id region children =>
    rw [recast, scopes, scopes]
    exact scopesOfList_recast m children
  | value id region name text body =>
    rw [recast, scopes, scopes]
    exact scopes_recast m body

theorem scopesOfList_recast (m : Recasting) (statements : List Statement) :
    scopesOfList (recastList m statements) = (scopesOfList statements).map (recast m) := by
  match statements with
  | [] => rw [recastList, scopesOfList, List.map_nil]
  | leaf id region text :: rest =>
    rw [recastList, recast, scopesOfList, scopesOfList]
    exact scopesOfList_recast m rest
  | group id region children :: rest =>
    rw [recastList, recast, scopesOfList, scopesOfList, List.map_append, scopesOfList_recast m children,
      scopesOfList_recast m rest]
  | value id region name text body :: rest =>
    rw [recastList, recast, scopesOfList, scopesOfList, List.map_cons, recast, scopesOfList_recast m rest]

end

mutual

/-- The scopes of a statement with other regions. -/
theorem scopes_placed (v : Region → Region) (s : Statement) : (s.placed v).scopes = s.scopes.map (placed v) := by
  cases s with
  | leaf id region text => simp [scopes]
  | group id region children =>
    rw [placed, scopes, scopes]
    exact scopesOfList_placed v children
  | value id region name text body =>
    rw [placed, scopes, scopes]
    exact scopes_placed v body

theorem scopesOfList_placed (v : Region → Region) (statements : List Statement) :
    scopesOfList (placedList v statements) = (scopesOfList statements).map (placed v) := by
  match statements with
  | [] => rw [placedList, scopesOfList, List.map_nil]
  | leaf id region text :: rest =>
    rw [placedList, placed, scopesOfList, scopesOfList]
    exact scopesOfList_placed v rest
  | group id region children :: rest =>
    rw [placedList, placed, scopesOfList, scopesOfList, List.map_append, scopesOfList_placed v children,
      scopesOfList_placed v rest]
  | value id region name text body :: rest =>
    rw [placedList, placed, scopesOfList, scopesOfList, List.map_cons, placed, scopesOfList_placed v rest]

end

/-- What keeps names and texts, and does to a statement what it does to its scopes, keeps the contents. -/
theorem contents_of_scopes {f : Statement → Statement} (hname : ∀ s, (f s).name? = s.name?)
    (htext : ∀ s, (f s).text = s.text) (hscopes : ∀ s, (f s).scopes = s.scopes.map f) (s : Statement) :
    (f s).contents = s.contents := by
  induction s using fromScopes with
  | node s ih =>
    rw [contents_eq, contents_eq, hname, htext, hscopes, List.map_map]
    exact congrArg _ (List.map_congr_left ih)

theorem contents_recast (m : Recasting) (s : Statement) : (s.recast m).contents = s.contents :=
  contents_of_scopes (name?_recast m) (text_recast m) (scopes_recast m) s

theorem contents_stripped (s : Statement) : s.stripped.contents = s.contents := by
  rw [stripped, contents_of_scopes (name?_placed _) (text_placed _) (scopes_placed _), contents_recast]

/-- Statements that differ in identities and places only have the same contents. -/
theorem contentsEqual_of_recast {m m' : Recasting} {s t : Statement} (h : s.recast m = t.recast m') :
    s.contentsEqual t = true := by
  rw [contentsEqual_iff, ← contents_recast m s, h, contents_recast]

/-! ## Tokens -/

/-- The entries of the scopes of a statement are those of its tokens. -/
theorem entries_map_contents (s : Statement) :
    Contents.entries (s.scopes.map contents) = s.tokens.map fun v => (v.name?, v.text) := by
  induction s using fromScopes with
  | node s ih =>
    rw [tokens_eq]
    generalize s.scopes = scopes at ih ⊢
    induction scopes with
    | nil => rw [List.map_nil, Contents.entries, List.flatMap_nil, List.map_nil]
    | cons v rest ihrest =>
      rw [List.map_cons, contents_eq v, Contents.entries, ih v (List.mem_cons_self ..),
        ihrest fun w hw => ih w (List.mem_cons_of_mem _ hw), List.flatMap_cons, List.map_append, List.map_cons]

/-- **Comparing contents is an equivalence that the tokens respect.** The comparison is reflexive, symmetric and transitive. It
does not change with the identities and regions of nodes, wherever they stand in either statement. The tokens of statements that
it finds equal have the same names and texts, one after the other. -/
theorem contentsEqual_equivalence :
    Equivalence (fun s t : Statement => s.contentsEqual t = true) ∧
    (∀ s s' t t' : Statement, s.stripped = s'.stripped → t.stripped = t'.stripped →
      s.contentsEqual t = s'.contentsEqual t') ∧
    ∀ s t : Statement, s.contentsEqual t = true →
      s.tokens.map (fun v => (v.name?, v.text)) = t.tokens.map fun v => (v.name?, v.text) := by
  refine ⟨⟨fun s => ?_, fun {s t} h => ?_, fun {s t u} h h' => ?_⟩, fun s s' t t' hs ht => ?_, fun s t h => ?_⟩
  · exact contentsEqual_iff.2 rfl
  · exact contentsEqual_iff.2 (contentsEqual_iff.1 h).symm
  · exact contentsEqual_iff.2 ((contentsEqual_iff.1 h).trans (contentsEqual_iff.1 h'))
  · have hs' : s.contents = s'.contents := by rw [← contents_stripped s, hs, contents_stripped]
    have ht' : t.contents = t'.contents := by rw [← contents_stripped t, ht, contents_stripped]
    rw [Bool.eq_iff_iff, contentsEqual_iff, contentsEqual_iff, hs', ht']
  · have hcontents := contentsEqual_iff.1 h
    rw [contents_eq s, contents_eq t, Contents.node.injEq] at hcontents
    rw [← entries_map_contents s, ← entries_map_contents t, hcontents.2.2]

/-- Two groups with the same value below them, one of them right below and one in a group of its own. They compare as equal, also
where the first one has been read elsewhere, and both ways. -/
theorem contentsEqual_equivalence_regrouped : ∃ s s' t : Statement,
    s ≠ s' ∧ s.stripped = s'.stripped ∧ s.contentsEqual t = true ∧
      t.contentsEqual s' = true ∧ s.contentsEqual s' = true ∧
      s'.tokens.map (fun v => (v.name?, v.text)) = t.tokens.map fun v => (v.name?, v.text) := by
  obtain ⟨hequivalence, hstripped, htokens⟩ := contentsEqual_equivalence
  let s : Statement := group ⟨0⟩ ⟨0, 2⟩ [value ⟨1⟩ ⟨0, 1⟩ "a" "x" (leaf ⟨2⟩ ⟨0, 1⟩ "x"), leaf ⟨3⟩ ⟨1, 1⟩ "y"]
  let s' : Statement := group ⟨4⟩ ⟨5, 2⟩ [value ⟨5⟩ ⟨5, 1⟩ "a" "x" (leaf ⟨5⟩ ⟨5, 1⟩ "x"), leaf ⟨6⟩ ⟨6, 1⟩ "y"]
  let t : Statement := group ⟨7⟩ ⟨0, 1⟩ [group ⟨8⟩ ⟨0, 1⟩ [value ⟨9⟩ ⟨0, 1⟩ "a" "x" (group ⟨10⟩ ⟨0, 1⟩ [])]]
  have hst : s.contentsEqual t = true := by
    rw [contentsEqual_iff]
    simp [s, t, contents_eq, scopes, scopesOfList, name?, text]
  have hss' : s.stripped = s'.stripped := by simp [s, s', stripped]
  have hts' : t.contentsEqual s' = true := by
    rw [hstripped t t s' s rfl hss'.symm]
    exact hequivalence.symm hst
  exact ⟨s, s', t, by simp [s, s'], hss', hst, hts', hequivalence.trans hst hts', (htokens t s' hts').symm⟩

end Statement

end Graft
