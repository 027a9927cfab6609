import Graft.Proofs.Letters
import Graft.Proofs.Marks
import Graft.Proofs.Whole

/-!
# Rows of matches

A root has three matches of one pattern. A repair keeps those that have not looked at what was edited and reads the others anew.
Where the pattern matches nothing, one match is taken three times.
-/

namespace Graft

open Engine

/-- A match of one byte behind so many others, for which one more byte was looked at. -/
def rowMatch (id place : Nat) (text : String) : Taken :=
  ⟨0, .leaf ⟨id⟩ ⟨place, 1⟩ text, .leaf ⟨0⟩ ⟨place, 2⟩⟩

/-- What has been gathered of a row. -/
def rowGathered (children : List Taken) : Gathering :=
  ⟨0, children.length, ⟨0, children.length + min 1 children.length⟩, children.toArray⟩

theorem rowGathered_push (children : List Taken) (id : Nat) (text : String) :
    ((rowGathered children).look ⟨children.length, 2⟩).push (rowMatch id children.length text) =
      rowGathered (children ++ [rowMatch id children.length text]) := by
  have hinterest : (⟨0, children.length + min 1 children.length⟩ : Region).expandTo ⟨children.length, 2⟩ =
      ⟨0, children.length + 1 + min 1 (children.length + 1)⟩ := by
    simp only [Region.expandTo, Region.stop, Region.mk.injEq]
    omega
  simp only [rowGathered, Gathering.look, Gathering.push, hinterest, rowMatch, Statement.region, Region.stop, List.push_toArray,
    List.length_append, List.length_singleton]

/-- Three matches with identities from the first on. -/
def rowOfThree (letter : Nat → String) (first : Nat) : List Taken :=
  [rowMatch first 0 (letter 0), rowMatch (first + 1) 1 (letter 1), rowMatch (first + 2) 2 (letter 2)]

/-- The tree of a row. -/
def Tree.row (children : List Taken) (root : Nat) (statistics : Statistics) : Tree :=
  ⟨(rowGathered children).statement ⟨root⟩, (rowGathered children).derivation ⟨1⟩ none, statistics⟩

theorem Tree.text_row (i j k root : Nat) (x y z : String) (statistics : Statistics) :
    (Tree.row [rowMatch i 0 x, rowMatch j 1 y, rowMatch k 2 z] root statistics).text = x ++ y ++ z := by
  simp [Tree.text, Tree.row, Gathering.statement, rowGathered, rowMatch, Statement.rawText_group, Statement.rawTextOfList_cons,
    Statement.rawTextOfList_nil, Statement.rawText_leaf, String.append_assoc]

/-- The nodes of a row of three. -/
theorem Tree.walk_row (i j k root : Nat) (x y z : String) (statistics : Statistics) :
    (Tree.row [rowMatch i 0 x, rowMatch j 1 y, rowMatch k 2 z] root statistics).statement.walk
        (Tree.row [rowMatch i 0 x, rowMatch j 1 y, rowMatch k 2 z] root statistics).derivation =
      ((rowGathered [rowMatch i 0 x, rowMatch j 1 y, rowMatch k 2 z]).statement ⟨root⟩,
          (rowGathered [rowMatch i 0 x, rowMatch j 1 y, rowMatch k 2 z]).derivation ⟨1⟩ none) ::
        [rowMatch i 0 x, rowMatch j 1 y, rowMatch k 2 z].map fun child => (child.statement, child.derivation) := by
  simp [Tree.row, Gathering.statement, Gathering.derivation, rowGathered, rowMatch, Statement.walk_group, Statement.walkList,
    Statement.walkListBefore, Statement.walkBefore, Derivation.children]

theorem Tree.mem_walk_row {i j k root : Nat} {x y z : String} {statistics : Statistics} {child : Taken}
    (h : child ∈ [rowMatch i 0 x, rowMatch j 1 y, rowMatch k 2 z]) :
    (child.statement, child.derivation) ∈
      (Tree.row [rowMatch i 0 x, rowMatch j 1 y, rowMatch k 2 z] root statistics).statement.walk
        (Tree.row [rowMatch i 0 x, rowMatch j 1 y, rowMatch k 2 z] root statistics).derivation := by
  rw [walk_row]
  exact List.mem_cons_of_mem _ (List.mem_map_of_mem h)

/-- Which nodes of a row of three are marked. -/
theorem EditedTree.Marks.row {letter : Nat → String} {statistics : Statistics} {touched : Region → Bool} {v : Region → Region}
    {t : EditedTree} (h : (EditedTree.ofTree (.row (rowOfThree letter 0) 3 statistics)).Marks touched v t) (id : NodeId) :
    t.modified.contains id = true ↔ touched ⟨0, 4⟩ = true ∧ ⟨3⟩ = id ∨ touched ⟨0, 2⟩ = true ∧ ⟨0⟩ = id ∨
      touched ⟨1, 2⟩ = true ∧ ⟨1⟩ = id ∨ touched ⟨2, 2⟩ = true ∧ ⟨2⟩ = id := by
  have hnodes : (EditedTree.ofTree (.row (rowOfThree letter 0) 3 statistics)).nodes = _ := Tree.walk_row 0 1 2 3 _ _ _ statistics
  rw [h.modified, hnodes]
  simp [EditedTree.ofTree, Gathering.statement, Gathering.derivation, rowGathered, rowOfThree, rowMatch, Derivation.interest,
    Statement.id, and_comm]

/-- The tree of three copies of a match of nothing. -/
def Tree.emptyRow (first : Nat) (statistics : Statistics) : Tree :=
  ⟨.group ⟨first + 1⟩ ⟨0, 0⟩ (List.replicate 3 (.leaf ⟨first⟩ ⟨0, 0⟩ "")),
    .group ⟨1⟩ ⟨0, 1⟩ (List.replicate 3 (.leaf ⟨0⟩ ⟨0, 1⟩)) [0, 0, 0] none, statistics⟩

theorem Tree.walk_emptyRow (first : Nat) (statistics : Statistics) :
    (Tree.emptyRow first statistics).statement.walk (Tree.emptyRow first statistics).derivation =
      ((Tree.emptyRow first statistics).statement, (Tree.emptyRow first statistics).derivation) ::
        List.replicate 3 (.leaf ⟨first⟩ ⟨0, 0⟩ "", .leaf ⟨0⟩ ⟨0, 1⟩) := by
  simp [Tree.emptyRow, List.replicate, Statement.walk_group, Statement.walkList, Statement.walkListBefore, Statement.walkBefore,
    Derivation.children]

section

variable [Pattern.Compiler]

/-- A grammar whose root has three matches of a pattern. -/
def Grammar.row (p : Pattern) : Grammar where
  rules := #[⟨none, [], .empty, .consume .keep (.pattern p)⟩,
    ⟨none, [], .empty, .container .inOrder [⟨⟨0⟩, .occurrence (.exactly 3), .empty⟩]⟩]
  root := ⟨1⟩

/-- The lane of the pattern that has to match three times. -/
abbrev rowLane (count : Nat) : Lane := ⟨0, ⟨⟨0⟩, .occurrence (.exactly 3), .empty⟩, .empty, ⟨.exactly 3, count⟩⟩

/-- A document is a row of three matches of a pattern, each of one byte. -/
structure Pattern.ReadsRow (p : Pattern) (input : String) (letter : Nat → String) : Prop where
  size : Text.size input = 3
  boundary : ∀ n < 3, Text.isBoundary input n = true
  hit : ∀ n < 3, p.matchFront ((Text.bytes input).drop n) = ⟨some 1, 2⟩
  slice : ∀ n < 3, Text.slice? input n (n + 1) = some (letter n)

variable {p : Pattern} {input : String} {letter : Nat → String} {modified : Std.HashSet NodeId} {i j n : Nat}

theorem Pattern.ReadsRow.size_le (h : p.ReadsRow input letter) : Text.size input ≤ Options.plain.limits.maxInputSize := by
  have hthree : 3 ≤ ({} : Limits).maxInputSize := by decide
  rw [h.size]
  exact hthree

/-! ## Matches of a row -/

/-- A match is read from scratch. -/
theorem rowMatch_fresh (h : p.ReadsRow input letter) (hn : n < 3) :
    Run.Gives 1 i (i + 1) ((attempts (.make (.row p) input .plain modified) 512).fresh ⟨0⟩ n .empty)
      (.success (rowMatch i n (letter n)).statement (rowMatch i n (letter n)).derivation) :=
  leaf_hit rfl (h.boundary n hn) (h.hit n hn) (h.slice n hn)

/-- A match that was touched is read anew. -/
theorem rowMatch_anew (h : p.ReadsRow input letter) (hn : n < 3) {s : Statement} {interest : Region}
    (htouched : modified.contains s.id = true) :
    Run.Gives 1 i (i + 1)
      ((attempts (.make (.row p) input .plain modified) 512).again ⟨0⟩ s (.leaf ⟨0⟩ interest) n .empty)
      (.success (rowMatch i n (letter n)).statement (rowMatch i n (letter n)).derivation) := by
  have hsize : Text.size (letter n) = 1 := by
    rw [Text.size_of_slice? (h.slice n hn), Nat.add_sub_cancel_left]
  have hread : Run.Gives 2 i (i + 1)
      (consume (.make (.row p) input .plain modified) ⟨0⟩ .keep (.pattern p) n .empty)
      (.success (.leaf ⟨i⟩ ⟨n, Text.size (letter n)⟩ (letter n)) (.leaf ⟨0⟩ ⟨n, 2⟩)) :=
    consume_hit (h.boundary n hn) (h.hit n hn) (h.slice n hn)
  rw [hsize] at hread
  have hlevel : (attempts (.make (.row p) input .plain modified) 512).again =
      reattempt (.make (.row p) input .plain modified) (attempts (.make (.row p) input .plain modified) 511) := rfl
  rw [hlevel]
  refine reattempt_gives rfl htouched rfl (Nat.succ_lt_succ (Nat.succ_pos 510)) ?_
  refine .lift (a := ⟨none, [], .empty, .consume .keep (.pattern p)⟩) rfl ?_
  exact hread

/-- A match that was not touched, and stands where it did, is kept. -/
theorem rowMatch_kept {id : Nat} {text : String} (huntouched : modified.contains ⟨id⟩ = false) :
    Run.Gives 1 i i
      ((attempts (.make (.row p) input .plain modified) 512).again ⟨0⟩ (rowMatch id n text).statement
        (rowMatch id n text).derivation n .empty)
      (.success (rowMatch id n text).statement (rowMatch id n text).derivation) := by
  have hknown : (rowMatch id n text).statement.Known (Setting.make (.row p) input .plain modified).grammar
      (rowMatch id n text).derivation := by
    rw [rowMatch, Statement.Known]
    rfl
  have hlevel : (attempts (.make (.row p) input .plain modified) 512).again =
      reattempt (.make (.row p) input .plain modified) (attempts (.make (.row p) input .plain modified) 511) := rfl
  rw [hlevel]
  exact reattempt_kept rfl rfl huntouched hknown

/-! ## Rows of three -/

theorem rowLane_addOne (hn : n < 3) : { rowLane n with counter := (rowLane n).counter.addOne } = rowLane (n + 1) := by
  have hcount : min (n + 1) largestSize = n + 1 := by
    rw [largestSize]
    omega
  simp only [rowLane, Counter.addOne, Counter.add, hcount]

/-- One match more is read again, and then the rest. -/
theorem row_again {A : Attempts} {earlier : Earlier} {rest : List Earlier} {children : List Taken} {id k : Nat} {text : String}
    {matched : Bool} {r : Bool × Progress} (hlength : children.length = n) (hn : n < 3)
    (ha : Run.Gives 1 i j (A.again ⟨0⟩ earlier.1 earlier.2 n .empty)
      (.success (rowMatch id n text).statement (rowMatch id n text).derivation))
    (hrest : Run.Gives 1 j k
      (readAgain A rest ⟨rowGathered (children ++ [rowMatch id n text]), rowLane (n + 1), true⟩) r) :
    Run.Gives 1 i k (readAgain A (earlier :: rest) ⟨rowGathered children, rowLane n, matched⟩) r := by
  subst hlength
  rw [← rowGathered_push, ← rowLane_addOne hn] at hrest
  exact readAgain_consumed (decide_eq_true hn) ha rfl rfl hrest

/-- One match more is read from scratch, and then the rest. -/
theorem row_anew {A : Attempts} {children : List Taken} {id k budget : Nat} {text : String} {matched : Bool} {r : Progress}
    (hlength : children.length = n) (hn : n < 3)
    (ha : Run.Gives 1 i j (A.fresh ⟨0⟩ n .empty)
      (.success (rowMatch id n text).statement (rowMatch id n text).derivation))
    (hrest : Run.Gives 1 j k
      (readFresh A ⟨1⟩ budget ⟨rowGathered (children ++ [rowMatch id n text]), rowLane (n + 1), true⟩) r) :
    Run.Gives 1 i k (readFresh A ⟨1⟩ (budget + 1) ⟨rowGathered children, rowLane n, matched⟩) r := by
  subst hlength
  rw [← rowGathered_push, ← rowLane_addOne hn] at hrest
  exact readFresh_consumed (decide_eq_true hn) ha rfl rfl hrest

/-- The root reads a row where its only edge does. -/
theorem row_inOrder {setting : Setting} {A : Attempts} {earliers : Earliers} {children : List Taken}
    (h : Run.Gives 1 i j (readLane setting A ⟨1⟩ (earliers.ofEdge 0) { gathering := .begin 0, lane := rowLane 0 })
      ⟨rowGathered children, rowLane 3, true⟩) :
    Run.Gives 1 i (j + 1) (inOrder setting A ⟨1⟩ [⟨⟨0⟩, .occurrence (.exactly 3), .empty⟩] earliers 0 .empty)
      (.success ((rowGathered children).statement ⟨j⟩) ((rowGathered children).derivation ⟨1⟩ none)) := by
  have hread : Run.Gives 1 i j (readInOrder setting A ⟨1⟩ .empty earliers
      [(⟨⟨0⟩, .occurrence (.exactly 3), .empty⟩, 0)] (.begin 0)) (true, rowGathered children) :=
    .lift (a := rowLane 0) rfl (.bind h (.pure _))
  exact .mark fun _ => .bind hread (.freshId (.pure _))

/-- A row is parsed as three matches. -/
theorem parse_row (h : p.ReadsRow input letter) (first : Nat) :
    ∃ statistics, (Grammar.row p).parse input .plain ⟨first⟩ =
      .ok (.row (rowOfThree letter first) (first + 3) statistics, ⟨first + 4⟩) := by
  have hremaining : (Setting.make (.row p) input .plain {}).remaining 0 = 3 := by
    simp only [Setting.remaining, Setting.make, h.size]
  have hlane : Run.Gives 1 first (first + 3)
      (readLane (.make (.row p) input .plain {}) (attempts (.make (.row p) input .plain {}) 512) ⟨1⟩ []
        { gathering := .begin 0, lane := rowLane 0 })
      ⟨rowGathered (rowOfThree letter first), rowLane 3, true⟩ := by
    refine readLane_fresh ?_
    rw [show Gathering.begin 0 = rowGathered [] from rfl, show (rowGathered []).cursor = 0 from rfl, hremaining]
    refine row_anew rfl (Nat.succ_pos 2) (rowMatch_fresh h (by decide)) ?_
    refine row_anew rfl (by decide) (rowMatch_fresh h (by decide)) ?_
    refine row_anew rfl (by decide) (rowMatch_fresh h (by decide)) ?_
    exact readFresh_full rfl
  refine parse_of_gives h.size_le (attempt_gives rfl rfl (Nat.succ_pos 511) ?_) h.size.symm
  exact .lift (a := ⟨none, [], .empty, .container .inOrder [⟨⟨0⟩, .occurrence (.exactly 3), .empty⟩]⟩) rfl (row_inOrder hlane)

/-- The texts of the matches make up the document. -/
theorem Pattern.ReadsRow.joined (h : p.ReadsRow input letter) : letter 0 ++ letter 1 ++ letter 2 = input := by
  have hall := Text.slice?_append (Text.slice?_append (h.slice 0 (by decide)) (h.slice 1 (by decide))) (h.slice 2 (by decide))
  rw [show 2 + 1 = Text.size input from h.size.symm, Text.slice?_self] at hall
  exact (Option.some.inj hall).symm

/-- Edits that fit a row are made, and mark and move its nodes. -/
theorem edits_row (h : p.ReadsRow input letter) {edited : String} {edits : List Edit} (he : Edit.applyAll edits input = .ok edited)
    (statistics : Statistics) :
    ∃ t, (Tree.row (rowOfThree letter 0) 3 statistics).applyEdits edits = .ok t ∧ t.text = edited ∧
      (EditedTree.ofTree (.row (rowOfThree letter 0) 3 statistics)).Marks (Edit.anyTouches edits) (Edit.placeAll edits) t := by
  obtain ⟨_, hparse⟩ := parse_row h 0
  obtain ⟨hw, htext⟩ := whole_of_parse hparse
  have hbegin := EditedTree.Follows.begin hw.formed (Nat.le_of_eq hw.stop)
  obtain ⟨t, -, ht, -, hedited⟩ := hbegin.edits hw.formed.paired (by rw [htext]; exact he)
  exact ⟨t, ht, hedited, EditedTree.marks_edits hw.formed.paired ht⟩

/-- Where edits touch the last two matches of a row only, a repair keeps the first and reads the others anew. -/
theorem repair_row (h : p.ReadsRow input letter) {edited : String} {letter' : Nat → String} (h' : p.ReadsRow edited letter')
    (hsame : letter' 0 = letter 0) {edits : List Edit} (he : Edit.applyAll edits input = .ok edited) (hne : edits ≠ [])
    (hcount : edits.length ≤ Options.plain.limits.maxEdits) (hregion : Edit.placeAll edits ⟨0, 1⟩ = ⟨0, 1⟩)
    (hinterest : Edit.placeAll edits ⟨0, 2⟩ = ⟨0, 2⟩) (huntouched : Edit.anyTouches edits ⟨0, 2⟩ = false)
    (htouched : Edit.anyTouches edits ⟨1, 2⟩ = true ∧ Edit.anyTouches edits ⟨2, 2⟩ = true ∧
      Edit.anyTouches edits ⟨0, 4⟩ = true) (statistics : Statistics) :
    ∃ statistics', (Grammar.row p).repair (.row (rowOfThree letter 0) 3 statistics) edits .plain ⟨4⟩ =
      .ok (.row [rowMatch 0 0 (letter 0), rowMatch 4 1 (letter' 1), rowMatch 5 2 (letter' 2)] 6 statistics', ⟨7⟩) := by
  obtain ⟨t, ht, rfl, hmarks⟩ := edits_row h he statistics
  have hstatement : t.statement = .group ⟨3⟩ (Edit.placeAll edits ⟨0, 3⟩) [(rowMatch 0 0 (letter 0)).statement,
      .leaf ⟨1⟩ (Edit.placeAll edits ⟨1, 1⟩) (letter 1), .leaf ⟨2⟩ (Edit.placeAll edits ⟨2, 1⟩) (letter 2)] := by
    rw [hmarks.statement]
    simp [EditedTree.ofTree, Tree.row, Gathering.statement, rowGathered, rowOfThree, rowMatch, Statement.placed_group,
      Statement.placed_leaf, hregion]
  have hderivation : t.derivation = .group ⟨1⟩ (Edit.placeAll edits ⟨0, 4⟩) [(rowMatch 0 0 (letter 0)).derivation,
      .leaf ⟨0⟩ (Edit.placeAll edits ⟨1, 2⟩), .leaf ⟨0⟩ (Edit.placeAll edits ⟨2, 2⟩)] [0, 0, 0] none := by
    rw [hmarks.derivation]
    simp [EditedTree.ofTree, Tree.row, Gathering.derivation, rowGathered, rowOfThree, rowMatch, Derivation.placed_group,
      Derivation.placed_leaf, hinterest]
  have hroot : t.modified.contains t.statement.id = true := by
    rw [hstatement, hmarks.row]
    exact Or.inl ⟨htouched.2.2, rfl⟩
  have hfirst : t.modified.contains ⟨0⟩ = false := by
    rw [← Bool.not_eq_true, hmarks.row, huntouched]
    simp
  have hsecond : t.modified.contains ⟨1⟩ = true := by
    rw [hmarks.row]
    exact Or.inr (Or.inr (Or.inl ⟨htouched.1, rfl⟩))
  have hthird : t.modified.contains ⟨2⟩ = true := by
    rw [hmarks.row]
    exact Or.inr (Or.inr (Or.inr ⟨htouched.2.1, rfl⟩))
  rw [repair_eq_rederive hne hcount ht h'.size_le hroot]
  have hlane : Run.Gives 1 4 6
      (readLane (.make (.row p) t.text .plain t.modified) (attempts (.make (.row p) t.text .plain t.modified) 512) ⟨1⟩
        ((earliersOf .inOrder t.statement t.derivation).ofEdge 0) { gathering := .begin 0, lane := rowLane 0 })
      ⟨rowGathered [rowMatch 0 0 (letter 0), rowMatch 4 1 (letter' 1), rowMatch 5 2 (letter' 2)], rowLane 3, true⟩ := by
    rw [hstatement, hderivation, show Gathering.begin 0 = rowGathered [] from rfl]
    refine readLane_again ?_ (readFresh_full rfl)
    refine row_again rfl (Nat.succ_pos 2) (rowMatch_kept hfirst) ?_
    refine row_again rfl (by decide) (rowMatch_anew h' (by decide) hsecond) ?_
    refine row_again rfl (by decide) (rowMatch_anew h' (by decide) hthird) ?_
    exact readAgain_nil
  have hread : Run.Gives 0 4 7
      ((atRoot (.make (.row p) t.text .plain t.modified)).again ⟨1⟩ t.statement t.derivation 0 .empty)
      (.success ((rowGathered [rowMatch 0 0 (letter 0), rowMatch 4 1 (letter' 1), rowMatch 5 2 (letter' 2)]).statement ⟨6⟩)
        ((rowGathered [rowMatch 0 0 (letter 0), rowMatch 4 1 (letter' 1), rowMatch 5 2 (letter' 2)]).derivation ⟨1⟩ none)) := by
    refine reattempt_gives (by rw [hderivation]; rfl) hroot rfl (Nat.succ_pos 511) ?_
    refine .lift (a := ⟨none, [], .empty, .container .inOrder [⟨⟨0⟩, .occurrence (.exactly 3), .empty⟩]⟩) rfl ?_
    exact row_inOrder hlane
  refine rederive_of_gives hread h'.size.symm ?_
  rw [← h'.joined, hsame]
  exact Tree.text_row 0 4 5 6 _ _ _ {}

/-! ## Matches of nothing -/

/-- A match of nothing, for which the end of the document was looked at, is taken three times by the empty row. -/
theorem parse_row_empty (hm : p.matchFront [] = ⟨some 0, 1⟩) (first : Nat) :
    ∃ statistics, (Grammar.row p).parse "" .plain ⟨first⟩ = .ok (.emptyRow first statistics, ⟨first + 2⟩) := by
  have hslice : Text.slice? "" 0 0 = some "" := by decide +kernel
  have hread : Run.Gives 1 first (first + 1) ((attempts (.make (.row p) "" .plain {}) 512).fresh ⟨0⟩ 0 .empty)
      (.success (.leaf ⟨first⟩ ⟨0, 0⟩ "") (.leaf ⟨0⟩ ⟨0, 1⟩)) :=
    leaf_hit rfl (Text.isBoundary_zero "") hm hslice
  have hlane : Run.Gives 1 first (first + 1)
      (readLane (.make (.row p) "" .plain {}) (attempts (.make (.row p) "" .plain {}) 512) ⟨1⟩ []
        { gathering := .begin 0, lane := rowLane 0 }) ⟨_, rowLane 3, true⟩ :=
    readLane_fresh (readFresh_empty rfl hread rfl rfl)
  have hroot : Run.Gives 1 first (first + 2) (inOrder (.make (.row p) "" .plain {})
      (attempts (.make (.row p) "" .plain {}) 512) ⟨1⟩ [⟨⟨0⟩, .occurrence (.exactly 3), .empty⟩] {} 0 .empty) _ :=
    .mark fun _ => .bind (.lift (a := rowLane 0) rfl (.bind hlane (.pure _))) (.freshId (.pure _))
  refine parse_of_gives (Nat.zero_le _) (attempt_gives rfl rfl (Nat.succ_pos 511) ?_) rfl
  refine .lift (a := ⟨none, [], .empty, .container .inOrder [⟨⟨0⟩, .occurrence (.exactly 3), .empty⟩]⟩) rfl ?_
  exact hroot

end

/-! ## Letters in a row -/

open Pattern.Regex

/-- A text of three characters of one byte that a pattern of one character reads is a row. -/
theorem Pattern.ReadsOne.readsRow {p : Pattern} {set : CharacterSet} (h : p.ReadsOne set) {input : String} {x y z : UInt8}
    (hbytes : Text.bytes input = [x, y, z]) (hx : x.toNat < 0x80 ∧ set.meets x.toNat x.toNat = true)
    (hy : y.toNat < 0x80 ∧ set.meets y.toNat y.toNat = true) (hz : z.toNat < 0x80 ∧ set.meets z.toNat z.toNat = true)
    {letter : Nat → String} (hslice : ∀ n < 3, Text.slice? input n (n + 1) = some (letter n)) : p.ReadsRow input letter where
  size := by rw [← Text.length_bytes, hbytes]; rfl
  boundary n hn := (Text.slice?_eq_some_iff.1 (hslice n hn)).1
  slice := hslice
  hit n hn := by
    have hcut : ∀ {byte : UInt8}, byte.toNat < 0x80 → Text.startsCharacter byte = true := by
      intro byte hone
      simp [Text.startsCharacter, UInt8.lt_iff_toNat_lt, hone]
    have hfirst : isCut [x, y, z] 1 = true := hcut hy.1
    have hsecond : isCut [y, z] 1 = true := hcut hz.1
    rw [hbytes]
    match n with
    | 0 => rw [List.drop_zero, h.matchFront_cons hx.1 hfirst, if_pos hx.2]
    | 1 => rw [List.drop_succ_cons, List.drop_zero, h.matchFront_cons hy.1 hsecond, if_pos hy.2]
    | 2 => rw [List.drop_succ_cons, List.drop_succ_cons, List.drop_zero, h.matchFront_cons hz.1 rfl, if_pos hz.2]

/-- The letters of a row of three. -/
def threeLetters (x y z : String) : Nat → String
  | 0 => x
  | 1 => y
  | _ => z

theorem Pattern.dot_readsRow_abc : dot.ReadsRow "abc" (threeLetters "a" "b" "c") :=
  dot_reads.readsRow (x := 97) (y := 98) (z := 99) (by decide +kernel) (by decide) (by decide) (by decide) (by decide +kernel)

theorem Pattern.dot_readsRow_abd : dot.ReadsRow "abd" (threeLetters "a" "b" "d") :=
  dot_reads.readsRow (x := 97) (y := 98) (z := 100) (by decide +kernel) (by decide) (by decide) (by decide)
    (by decide +kernel)

/-- The tree of three letters, each of which is a match. -/
def Tree.abc (statistics : Statistics) : Tree :=
  .row (rowOfThree (threeLetters "a" "b" "c") 0) 3 statistics

/-- The tree that is made of it when the last letter is replaced. The first match has kept its identity. -/
def Tree.abd (statistics : Statistics) : Tree :=
  .row [rowMatch 0 0 "a", rowMatch 4 1 "b", rowMatch 5 2 "d"] 6 statistics

theorem parse_abc : ∃ statistics, (Grammar.row .dot).parse "abc" .plain ⟨0⟩ = .ok (.abc statistics, ⟨4⟩) :=
  parse_row Pattern.dot_readsRow_abc 0

@[simp] theorem Tree.text_abc (statistics : Statistics) : (Tree.abc statistics).text = "abc" := by
  rw [← Pattern.dot_readsRow_abc.joined]
  exact text_row 0 1 2 3 _ _ _ statistics

/-- The last letter is replaced. -/
theorem applyAll_abd : Edit.applyAll [⟨2, 1, "d"⟩] "abc" = .ok "abd" := by
  decide +kernel

/-- The second letter looked at the third one, and the first one did not. -/
theorem repair_abd (statistics : Statistics) : ∃ statistics',
    (Grammar.row .dot).repair (.abc statistics) [⟨2, 1, "d"⟩] .plain ⟨4⟩ = .ok (.abd statistics', ⟨7⟩) :=
  repair_row Pattern.dot_readsRow_abc Pattern.dot_readsRow_abd rfl applyAll_abd (List.cons_ne_nil _ _) (by decide)
    (by decide +kernel) (by decide +kernel) (by decide +kernel) (by decide +kernel) statistics

end Graft
