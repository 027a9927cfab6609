import Graft.Data.Occurrence
import Graft.Data.Statement
import Graft.Proofs.Counting

/-!
# Saved values

A value whose numbers are sizes is read back from its data as it was. Whatever data a value is read from, its numbers are sizes,
so the value can be saved and read again.
-/

namespace Graft

/-! ## Numbers -/

namespace Data

/-- A number that is a size is read as one. -/
theorem toSize?_natural {n : Nat} (h : n ≤ largestSize) : (natural n).toSize? = some n :=
  if_pos h

/-- What is read as a size is one. -/
theorem le_of_toSize? {d : Data} {n : Nat} (h : d.toSize? = some n) : n ≤ largestSize := by
  cases d with
  | natural m =>
    rw [toSize?, toNatural?] at h
    split at h
    · rename_i hle
      cases h
      exact hle
    · cases h
  | null | bool | otherNumber | text | list | object => cases h

/-- A way to save values: those that are sized are read back as they were, and nothing else is ever read. -/
structure Faithful {α : Type} (encode : α → Data) (decode? : Data → Option α) (Sized : α → Prop) : Prop where
  restored {a : α} (sized : Sized a) : decode? (encode a) = some a
  sized {d : Data} {a : α} (read : decode? d = some a) : Sized a

namespace Faithful

variable {α : Type} {encode : α → Data} {decode? : Data → Option α} {Sized : α → Prop}

/-- A value is read back exactly when it is sized. -/
theorem restored_iff (h : Faithful encode decode? Sized) (a : α) : decode? (encode a) = some a ↔ Sized a :=
  ⟨h.sized, h.restored⟩

/-- What was read can be saved and read again. -/
theorem again (h : Faithful encode decode? Sized) (d : Data) (a : α) (read : decode? d = some a) :
    decode? (encode a) = some a :=
  h.restored (h.sized read)

end Faithful

end Data

/-! ## Records -/

/-- A region whose numbers are sizes. -/
structure Region.Sized (r : Region) : Prop where
  offset : r.offset ≤ largestSize
  length : r.length ≤ largestSize

/-- Regions are saved faithfully if their numbers are sizes. -/
theorem Region.faithful : Data.Faithful encode decode? Sized where
  restored {r} h := by
    have hparts : r.encode.parts? ["offset", "length"] = some [.natural r.offset, .natural r.length] := rfl
    rw [decode?, hparts]
    simp only [Option.bind_eq_bind, Option.bind_some, Data.toSize?_natural h.offset, Data.toSize?_natural h.length]
    rfl
  sized {d r} h := by
    rw [decode?] at h
    obtain ⟨parts, -, h⟩ := Option.bind_eq_some_iff.1 h
    split at h
    · obtain ⟨offset, hoffset, h⟩ := Option.bind_eq_some_iff.1 h
      obtain ⟨length, hlength, h⟩ := Option.bind_eq_some_iff.1 h
      cases h
      exact ⟨Data.le_of_toSize? hoffset, Data.le_of_toSize? hlength⟩
    · cases h

/-- An edit whose numbers are sizes. -/
structure Edit.Sized (e : Edit) : Prop where
  offset : e.offset ≤ largestSize
  length : e.length ≤ largestSize

/-- Edits are saved faithfully if their numbers are sizes. -/
theorem Edit.faithful : Data.Faithful encode decode? Sized where
  restored {e} h := by
    have hparts : e.encode.parts? ["offset", "length", "text"] =
        some [.natural e.offset, .natural e.length, .text e.text] := rfl
    rw [decode?, hparts]
    simp only [Option.bind_eq_bind, Option.bind_some, Data.toSize?_natural h.offset, Data.toSize?_natural h.length]
    rfl
  sized {d e} h := by
    rw [decode?] at h
    obtain ⟨parts, -, h⟩ := Option.bind_eq_some_iff.1 h
    split at h
    · obtain ⟨offset, hoffset, h⟩ := Option.bind_eq_some_iff.1 h
      obtain ⟨length, hlength, h⟩ := Option.bind_eq_some_iff.1 h
      obtain ⟨text, -, h⟩ := Option.bind_eq_some_iff.1 h
      cases h
      exact ⟨Data.le_of_toSize? hoffset, Data.le_of_toSize? hlength⟩
    · cases h

/-! ## Occurrences -/

namespace Occurrence

mutual

/-- An occurrence whose counts are sizes is read back as it was. -/
theorem decode?_encode {o : Occurrence} (h : o.Sized) : decode? o.encode = some o := by
  cases o with
  | exactly n =>
    rw [Sized] at h
    simp [encode, decode?, simple?, Data.toSize?_natural h]
  | atLeast least =>
    rw [Sized] at h
    simp [encode, decode?, simple?, Data.toSize?_natural h]
  | atMost most =>
    rw [Sized] at h
    simp [encode, decode?, simple?, Data.toSize?_natural h]
  | between least most =>
    rw [Sized] at h
    simp [encode, decode?, simple?, bounds?, Data.toSize?_natural h.1, Data.toSize?_natural h.2]
  | any => rfl
  | oneOf choices =>
    rw [Sized] at h
    rw [encode, decode?, if_pos rfl, decodeList?_encodeList h]
    rfl

/-- Choices whose counts are sizes are read back as they were. -/
theorem decodeList?_encodeList {choices : List Occurrence} (h : AllSized choices) :
    decodeList? (encodeList choices) = some choices := by
  cases choices with
  | nil => rfl
  | cons choice rest =>
    rw [AllSized] at h
    rw [encodeList, decodeList?, decode?_encode h.1, decodeList?_encodeList h.2]

end

/-- Two bounds that were read are sizes. -/
theorem sized_of_bounds? {items : List Data} {o : Occurrence} (h : bounds? items = some o) : o.Sized := by
  rw [bounds?.eq_def] at h
  split at h
  · obtain ⟨least, hleast, h⟩ := Option.bind_eq_some_iff.1 h
    obtain ⟨most, hmost, h⟩ := Option.bind_eq_some_iff.1 h
    cases h
    rw [Sized]
    exact ⟨Data.le_of_toSize? hleast, Data.le_of_toSize? hmost⟩
  · cases h

/-- An occurrence without choices that was read has sizes for its counts. -/
theorem sized_of_simple? {tag : String} {content : Data} {o : Occurrence} (h : simple? tag content = some o) : o.Sized := by
  have hsize {make : Nat → Occurrence} (hmake : ∀ n ≤ largestSize, (make n).Sized)
      (h : content.toSize?.map make = some o) : o.Sized := by
    obtain ⟨n, hn, rfl⟩ := Option.map_eq_some_iff.1 h
    exact hmake n (Data.le_of_toSize? hn)
  rw [simple?.eq_def] at h
  split at h
  · exact hsize (fun n hn => by rwa [Sized]) h
  split at h
  · exact hsize (fun n hn => by rwa [Sized]) h
  split at h
  · exact hsize (fun n hn => by rwa [Sized]) h
  split at h
  · split at h
    · cases h
      rw [Sized]
      trivial
    · cases h
  split at h
  · split at h
    · exact sized_of_bounds? h
    · cases h
  · cases h

mutual

/-- An occurrence that was read has sizes for its counts, in its choices too. -/
theorem sized_of_decode? {d : Data} {o : Occurrence} (h : decode? d = some o) : o.Sized := by
  rw [decode?.eq_def] at h
  split at h
  · split at h
    · cases h
      rw [Sized]
      trivial
    · cases h
  · split at h
    · obtain ⟨choices, hchoices, rfl⟩ := Option.map_eq_some_iff.1 h
      rw [Sized]
      exact allSized_of_decodeList? hchoices
    · exact sized_of_simple? h
  · exact sized_of_simple? h
  · cases h

/-- Choices that were read have sizes for their counts. -/
theorem allSized_of_decodeList? {items : List Data} {choices : List Occurrence} (h : decodeList? items = some choices) :
    AllSized choices := by
  cases items with
  | nil =>
    cases h
    rw [AllSized]
    trivial
  | cons item rest =>
    rw [decodeList?] at h
    split at h
    · rename_i hchoice hrest
      cases h
      rw [AllSized]
      exact ⟨sized_of_decode? hchoice, allSized_of_decodeList? hrest⟩
    · cases h

end

/-- Occurrences are saved faithfully if their counts are sizes. -/
theorem faithful : Data.Faithful encode decode? Sized :=
  ⟨decode?_encode, sized_of_decode?⟩

end Occurrence

/-! ## Statements -/

namespace Option

variable {α β : Type}

/-- Where every entry is read back, so is the list of them. -/
theorem mapM_map_eq_some {f : β → Option α} {g : α → β} {list : List α} (h : ∀ a ∈ list, f (g a) = some a) :
    (list.map g).mapM f = some list := by
  induction list with
  | nil => rfl
  | cons a rest ih =>
    obtain ⟨ha, hrest⟩ := List.forall_mem_cons.1 h
    rw [List.map_cons, List.mapM_cons, ha, ih hrest]
    rfl

/-- Every result comes from an entry. -/
theorem exists_of_mem_mapM {f : β → Option α} {list : List β} {results : List α} (h : list.mapM f = some results) {a : α}
    (ha : a ∈ results) : ∃ b, f b = some a := by
  induction list generalizing results with
  | nil =>
    cases h
    cases ha
  | cons b rest ih =>
    rw [List.mapM_cons] at h
    obtain ⟨first, hfirst, h⟩ := Option.bind_eq_some_iff.1 h
    obtain ⟨others, hothers, h⟩ := Option.bind_eq_some_iff.1 h
    cases h
    rcases List.mem_cons.1 ha with rfl | ha
    · exact ⟨b, hfirst⟩
    · exact ih hothers ha

end Option

namespace Statement

/-- A statement whose identities are sizes, as are the numbers of its regions. -/
inductive Sized : Statement → Prop where
  | node {s : Statement} (id : s.id.index ≤ largestSize) (region : s.region.Sized) (below : ∀ child ∈ s.children, Sized child) :
      Sized s

/-- Several statements are encoded one by one. -/
theorem encodeList_eq (statements : List Statement) : encodeList statements = statements.map encode := by
  induction statements with
  | nil => rfl
  | cons s rest ih => rw [encodeList, ih, List.map_cons]

/-! ### How deep data is nested -/

/-- An item is nested no deeper than the list that it is in. -/
theorem height_le_of_mem {item : Data} {items : List Data} (h : item ∈ items) : height item ≤ height.heightOfList items := by
  induction items with
  | nil => cases h
  | cons first rest ih =>
    rw [height.heightOfList]
    rcases List.mem_cons.1 h with rfl | h
    · exact Nat.le_max_left _ _
    · exact Nat.le_trans (ih h) (Nat.le_max_right _ _)

/-- What is particular to a statement is nested less deep than the statement. -/
theorem height_lt_encodeAs (id : NodeId) (region : Region) (tag : String) (content : Data) :
    height content < height (encodeAs id region tag content) := by
  simp only [encodeAs, height, height.heightOfFields]
  omega

/-! ### One node -/

section

variable {id : NodeId} {region : Region} (hid : id.index ≤ largestSize) (hregion : region.Sized) (fuel : Nat)
include hid hregion

/-- A leaf is read back from its text. -/
theorem decodeWithin?_consumed (text : String) :
    decodeWithin? (fuel + 1) (encodeAs id region "Consumed" (.text text)) = some (leaf id region text) := by
  have hparts : (encodeAs id region "Consumed" (.text text)).parts? ["id", "region", "kind"] =
      some [.natural id.index, region.encode, .object [("Consumed", .text text)]] := rfl
  rw [decodeWithin?, hparts]
  simp [Data.toSize?_natural hid, Region.faithful.restored hregion, Data.toText?]

/-- A group is read back with what is read of its items. -/
theorem decodeWithin?_collection (items : List Data) :
    decodeWithin? (fuel + 1) (encodeAs id region "Collection" (.list items)) =
      (items.mapM (decodeWithin? fuel)).bind fun children => some (group id region children) := by
  have hparts : (encodeAs id region "Collection" (.list items)).parts? ["id", "region", "kind"] =
      some [.natural id.index, region.encode, .object [("Collection", .list items)]] := rfl
  rw [decodeWithin?, hparts]
  simp [Data.toSize?_natural hid, Region.faithful.restored hregion]

/-- A value is read back with what is read of its body. -/
theorem decodeWithin?_value (name text : String) (body : Data) :
    decodeWithin? (fuel + 1) (encodeAs id region "Value" (.object [("name", .text name), ("value", .text text), ("sub", body)])) =
      (decodeWithin? fuel body).bind fun body => some (value id region name text body) := by
  have hparts : (encodeAs id region "Value"
      (.object [("name", .text name), ("value", .text text), ("sub", body)])).parts? ["id", "region", "kind"] =
      some [.natural id.index, region.encode,
        .object [("Value", .object [("name", .text name), ("value", .text text), ("sub", body)])]] := rfl
  have hinner : (Data.object [("name", .text name), ("value", .text text), ("sub", body)]).parts? ["name", "value", "sub"] =
      some [.text name, .text text, body] := rfl
  rw [decodeWithin?, hparts]
  simp [Data.toSize?_natural hid, Region.faithful.restored hregion, hinner, Data.toText?]

end

/-- A statement is read back from its data by any reader that goes deep enough. -/
theorem decodeWithin?_encode {s : Statement} (h : s.Sized) {fuel : Nat} (hfuel : height s.encode < fuel) :
    decodeWithin? fuel s.encode = some s := by
  induction h generalizing fuel with
  | @node s hid hregion _ ih =>
    cases fuel with
    | zero => cases hfuel
    | succ fuel =>
      cases s with
      | leaf id region text => exact decodeWithin?_consumed hid hregion fuel text
      | group id region children =>
        have hchildren : ∀ child ∈ children, decodeWithin? fuel child.encode = some child := by
          intro child hm
          refine ih child hm ?_
          have hitem := height_le_of_mem (List.mem_map_of_mem (f := encode) hm)
          have hcontent := height_lt_encodeAs id region "Collection" (.list (encodeList children))
          rw [height, encodeList_eq] at hcontent
          rw [encode, encodeList_eq] at hfuel
          omega
        have hread := decodeWithin?_collection hid hregion fuel (encodeList children)
        rw [encodeList_eq, Option.mapM_map_eq_some hchildren, ← encodeList_eq] at hread
        rw [encode]
        exact hread
      | value id region name text body =>
        have hbody : decodeWithin? fuel body.encode = some body := by
          refine ih body (List.mem_singleton_self body) ?_
          have hcontent := height_lt_encodeAs id region "Value"
            (.object [("name", .text name), ("value", .text text), ("sub", body.encode)])
          simp only [height, height.heightOfFields] at hcontent
          rw [encode] at hfuel
          omega
        have hread := decodeWithin?_value hid hregion fuel name text body.encode
        rw [hbody] at hread
        rw [encode]
        exact hread

/-- Whatever a statement is read from, its numbers are sizes. -/
theorem sized_of_decodeWithin? {fuel : Nat} {d : Data} {s : Statement} (h : decodeWithin? fuel d = some s) : s.Sized := by
  induction fuel generalizing d s with
  | zero => cases h
  | succ fuel ih =>
    rw [decodeWithin?] at h
    obtain ⟨parts, -, h⟩ := Option.bind_eq_some_iff.1 h
    split at h
    · obtain ⟨id, hid, h⟩ := Option.bind_eq_some_iff.1 h
      obtain ⟨region, hregion, h⟩ := Option.bind_eq_some_iff.1 h
      have hnumbers := Data.le_of_toSize? hid
      have hsized := Region.faithful.sized hregion
      split at h
      · split at h
        · obtain ⟨text, -, h⟩ := Option.bind_eq_some_iff.1 h
          cases h
          exact .node hnumbers hsized fun _ hm => nomatch hm
        split at h
        · split at h
          · obtain ⟨children, hchildren, h⟩ := Option.bind_eq_some_iff.1 h
            cases h
            refine .node hnumbers hsized fun child hm => ?_
            obtain ⟨_, hchild⟩ := Option.exists_of_mem_mapM hchildren hm
            exact ih hchild
          · cases h
        split at h
        · split at h
          · obtain ⟨inner, -, h⟩ := Option.bind_eq_some_iff.1 h
            split at h
            · obtain ⟨name, -, h⟩ := Option.bind_eq_some_iff.1 h
              obtain ⟨text, -, h⟩ := Option.bind_eq_some_iff.1 h
              obtain ⟨body, hbody, h⟩ := Option.bind_eq_some_iff.1 h
              cases h
              refine .node hnumbers hsized fun child hm => ?_
              obtain rfl := List.mem_singleton.1 hm
              exact ih hbody
            · cases h
          · cases h
        · cases h
      · cases h
    · cases h

/-- Statements are saved faithfully if their identities and the numbers of their regions are sizes. -/
theorem faithful : Data.Faithful encode decode? Sized :=
  ⟨fun h => decodeWithin?_encode h (Nat.lt_succ_self _), sized_of_decodeWithin?⟩

end Statement

/-! ## Saving and reading -/

/-- **Saved values are read back.** A region, an edit, an occurrence or a statement is read back from its data as it was exactly
when its numbers are sizes: those of a statement are the identities and regions of all its nodes, and those of an occurrence the
numbers of all its choices. Whatever data a value is read from, the value is saved and read again as it is. -/
theorem saved_values_read_back :
    (∀ r : Region, Region.decode? r.encode = some r ↔ r.Sized) ∧
    (∀ e : Edit, Edit.decode? e.encode = some e ↔ e.Sized) ∧
    (∀ o : Occurrence, Occurrence.decode? o.encode = some o ↔ o.Sized) ∧
    (∀ s : Statement, Statement.decode? s.encode = some s ↔ s.Sized) ∧
    (∀ d r, Region.decode? d = some r → Region.decode? r.encode = some r) ∧
    (∀ d e, Edit.decode? d = some e → Edit.decode? e.encode = some e) ∧
    (∀ d o, Occurrence.decode? d = some o → Occurrence.decode? o.encode = some o) ∧
    ∀ d s, Statement.decode? d = some s → Statement.decode? s.encode = some s :=
  ⟨Region.faithful.restored_iff, Edit.faithful.restored_iff, Occurrence.faithful.restored_iff, Statement.faithful.restored_iff,
    Region.faithful.again, Edit.faithful.again, Occurrence.faithful.again, Statement.faithful.again⟩

/-- A value in a group is read back, with the largest sizes and any text, and so are choices within choices. A region that was
read from a list is saved as a record. -/
theorem saved_values_read_back_nested : ∃ (s : Statement) (o : Occurrence) (e : Edit) (r : Region),
    s = .group ⟨largestSize⟩ ⟨largestSize, largestSize⟩
      [.leaf ⟨0⟩ ⟨0, 0⟩ "\u0000\"é", .value ⟨1⟩ ⟨0, largestSize⟩ "n" "" (.group ⟨2⟩ ⟨0, 1⟩ [])] ∧
    o = .oneOf [.oneOf [.between 1 largestSize, .any], .exactly 0] ∧
    e = ⟨largestSize, 0, "é"⟩ ∧ Region.decode? (.list [.natural 3, .natural 4]) = some r ∧
    Statement.decode? s.encode = some s ∧ Occurrence.decode? o.encode = some o ∧ Edit.decode? e.encode = some e ∧
    Region.decode? r.encode = some r := by
  obtain ⟨-, edits, occurrences, statements, regions, -⟩ := saved_values_read_back
  have hleaf : (Statement.leaf ⟨0⟩ ⟨0, 0⟩ "\u0000\"é").Sized :=
    .node (Nat.zero_le _) ⟨Nat.zero_le _, Nat.zero_le _⟩ fun _ h => nomatch h
  have hbody : (Statement.group ⟨2⟩ ⟨0, 1⟩ []).Sized := .node (by decide) ⟨by decide, by decide⟩ fun _ h => nomatch h
  have hvalue : (Statement.value ⟨1⟩ ⟨0, largestSize⟩ "n" "" (.group ⟨2⟩ ⟨0, 1⟩ [])).Sized := by
    refine .node (by decide) ⟨Nat.zero_le _, Nat.le_refl _⟩ fun child hm => ?_
    obtain rfl := List.mem_singleton.1 hm
    exact hbody
  refine ⟨_, _, _, _, rfl, rfl, rfl, rfl, (statements _).2 ?_, (occurrences _).2 ?_, (edits _).2 ?_,
    regions (.list [.natural 3, .natural 4]) ⟨3, 4⟩ rfl⟩
  · refine .node (Nat.le_refl _) ⟨Nat.le_refl _, Nat.le_refl _⟩ fun child hm => ?_
    rcases List.mem_cons.1 hm with rfl | hm
    · exact hleaf
    · obtain rfl := List.mem_singleton.1 hm
      exact hvalue
  · simp only [Occurrence.Sized, Occurrence.AllSized, Nat.zero_le, and_true]
    exact ⟨by decide, Nat.le_refl _⟩
  · exact ⟨Nat.le_refl _, Nat.zero_le _⟩

end Graft
