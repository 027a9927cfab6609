import Graft.Text

/-!
# Sample documents

Documents of any length for the sample grammars, and an offset in the middle of a list.
-/

namespace Graft.Samples

/-- The ten digits over and over. -/
def digitDocument (count : Nat) : String :=
  String.ofList ((List.range count).map fun i => Char.ofNat ('0'.toNat + i % 10))

/-- Numbers with commas between them. -/
def numberDocument (count : Nat) : String :=
  String.intercalate "," ((List.range count).map fun i => toString (i * 7 % 1000))

/-- The words of a word document, in their order. -/
def words : List String := ["alpha", "beta", "gamma", "delta", "epsilon", "zeta"]

/-- A few words over and over, with single spaces between them. -/
def wordDocument (count : Nat) : String :=
  String.intercalate " " ((List.range count).map fun i => words.getD (i % words.length) "")

/-- The last offset right after a separator, among the characters of a text; zero if there is none. -/
def afterLast (separator : Char) (text : List Char) : Nat :=
  (text.foldl (fun (offsets : Nat × Nat) c =>
    let offset := offsets.1 + c.utf8Size
    (offset, if c = separator then offset else offsets.2)) (0, 0)).2

/-- Where the item in the middle of a list starts: after the last separator in the first half of the document. There is no
answer where the half ends inside a character. -/
def middleItem? (document : String) (separator : Char) : Option Nat :=
  (Text.slice? document 0 (Text.size document / 2)).map fun half => afterLast separator half.toList

end Graft.Samples
