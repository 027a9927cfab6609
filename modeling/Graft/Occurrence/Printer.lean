import Graft.Occurrence

/-!
# Occurrences in writing

The text form of an occurrence is one token, or the text forms of its choices with bars between them.
-/

namespace Graft.Occurrence

mutual

/-- The text form of an occurrence. -/
def text : Occurrence → String
  | exactly n => toString n
  | atLeast n => if n = 1 then "+" else toString n ++ "+"
  | atMost n => if n = 1 then "?" else toString n ++ "-"
  | between least most => toString least ++ "-" ++ toString most
  | any => "*"
  | oneOf choices => String.intercalate "|" (texts choices)

/-- The text forms of several occurrences. -/
def texts : List Occurrence → List String
  | [] => []
  | choice :: rest => choice.text :: texts rest

end

mutual

/-- An occurrence as it stands in messages about bindings. -/
def display : Occurrence → String
  | exactly n => s!"Exact({n})"
  | atLeast n => s!"AtLeast({n})"
  | atMost n => s!"AtMost({n})"
  | between least most => s!"Range({least}, {most})"
  | any => "Any"
  | oneOf choices => "Alternatives([" ++ String.intercalate ", " (displays choices) ++ "])"

/-- Several occurrences as they stand in messages about bindings. -/
def displays : List Occurrence → List String
  | [] => []
  | choice :: rest => choice.display :: displays rest

end

end Graft.Occurrence
