import Graft.Identity
import Graft.Region

/-!
# Statements

A statement is what a rule read: a piece of text, a group of statements, or a value, which has a name, the text that belongs
to it, and the statement it was read from.
-/

namespace Graft

/-- What a rule read, and where. -/
inductive Statement where
  | leaf (id : NodeId) (region : Region) (text : String)
  | group (id : NodeId) (region : Region) (children : List Statement)
  | value (id : NodeId) (region : Region) (name text : String) (body : Statement)
  deriving Repr, Inhabited

namespace Statement

/-- The identity of a statement. -/
def id : Statement → NodeId
  | leaf id .. | group id .. | value id .. => id

/-- Where a statement was read. -/
def region : Statement → Region
  | leaf _ region _ | group _ region _ | value _ region .. => region

/-- A statement at another place. -/
def withRegion (region : Region) : Statement → Statement
  | leaf id _ text => leaf id region text
  | group id _ children => group id region children
  | value id _ name text body => value id region name text body

/-- Whether two statements are the same node. -/
def sameNode (s t : Statement) : Bool :=
  s.id == t.id

/-- The name of a value. -/
def name? : Statement → Option String
  | value _ _ name .. => some name
  | _ => none

/-- The text that belongs to a statement: all of a piece of text, none of a group, and of a value what it has collected. -/
def text : Statement → String
  | leaf _ _ text => text
  | group .. => ""
  | value _ _ _ text _ => text

/-- The statements right below a statement. -/
def children : Statement → List Statement
  | leaf .. => []
  | group _ _ children => children
  | value _ _ _ _ body => [body]

/-- The statement that a value was read from. -/
def body? : Statement → Option Statement
  | value _ _ _ _ body => some body
  | _ => none

/-- A value under another name. Other statements stay as they are. -/
def renamed (name : String) : Statement → Statement
  | value id region _ text body => value id region name text body
  | s => s

mutual

/-- The text that a statement was read from, behind another text. -/
def rawTextAfter (front : String) : Statement → String
  | leaf _ _ text => front ++ text
  | group _ _ children => rawTextOfListAfter front children
  | value _ _ _ _ body => body.rawTextAfter front

/-- The text that several statements were read from, behind another text. -/
def rawTextOfListAfter (front : String) : List Statement → String
  | [] => front
  | s :: rest => rawTextOfListAfter (s.rawTextAfter front) rest

end

/-- The text that a statement was read from. -/
def rawText (s : Statement) : String :=
  s.rawTextAfter ""

/-- The text that several statements were read from. -/
def rawTextOfList (statements : List Statement) : String :=
  rawTextOfListAfter "" statements

mutual

theorem rawTextAfter_eq_append (front : String) (s : Statement) : s.rawTextAfter front = front ++ s.rawText := by
  cases s with
  | leaf => simp [rawText, rawTextAfter]
  | group id region children =>
    simp only [rawText, rawTextAfter]
    rw [rawTextOfListAfter_eq_append front children, rawTextOfList]
  | value id region name text body =>
    simp only [rawText, rawTextAfter]
    rw [rawTextAfter_eq_append front body, rawText]

theorem rawTextOfListAfter_eq_append (front : String) (statements : List Statement) :
    rawTextOfListAfter front statements = front ++ rawTextOfList statements := by
  match statements with
  | [] => simp [rawTextOfList, rawTextOfListAfter]
  | s :: rest =>
    simp only [rawTextOfList, rawTextOfListAfter]
    rw [rawTextOfListAfter_eq_append _ rest, rawTextAfter_eq_append front s, rawTextOfListAfter_eq_append _ rest,
      rawTextAfter_eq_append "" s, String.empty_append, String.append_assoc]

end

theorem rawText_leaf (id : NodeId) (region : Region) (text : String) : (leaf id region text).rawText = text := by
  simp [rawText, rawTextAfter]

theorem rawText_group (id : NodeId) (region : Region) (children : List Statement) :
    (group id region children).rawText = rawTextOfList children := by
  simp [rawText, rawTextAfter, rawTextOfList]

theorem rawText_value (id : NodeId) (region : Region) (name text : String) (body : Statement) :
    (value id region name text body).rawText = body.rawText := by
  simp [rawText, rawTextAfter]

theorem rawTextOfList_nil : rawTextOfList [] = "" := by
  simp [rawTextOfList, rawTextOfListAfter]

theorem rawTextOfList_cons (s : Statement) (rest : List Statement) :
    rawTextOfList (s :: rest) = s.rawText ++ rawTextOfList rest := by
  rw [rawTextOfList, rawTextOfListAfter, rawTextOfListAfter_eq_append, rawText]

end Statement

end Graft
