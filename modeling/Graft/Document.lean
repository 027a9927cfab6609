import Graft.Repair

/-!
# Documents under edit

A document keeps its text and, while the text matches, its tree. An edit first repairs the tree; where the repair says that
the document does not match, or there is no tree, the whole text is parsed again. Three counters tell how often each
happened, and how often a call failed.
-/

namespace Graft

variable [Pattern.Compiler]

/-- How an edit was answered. -/
inductive EditOutcome where
  | repaired
  | reparsed
  deriving DecidableEq, Repr

/-- How often a tree was repaired, a text parsed again, and a call failed. -/
structure SessionStatistics where
  repairs : Nat := 0
  fallbacks : Nat := 0
  failures : Nat := 0
  deriving DecidableEq, Repr

/-- A document under edit. -/
structure Document where
  grammar : Grammar
  text : String
  tree : Option Tree
  options : Options
  statistics : SessionStatistics := {}

namespace Document

/-- What a call on a document came to: the answer, the document after it, and the first identity that is left. -/
structure Change where
  answer : Except Fault EditOutcome
  document : Document
  nextId : NodeId

/-- Open a text as a document. It has to match. -/
def «open» (grammar : Grammar) (text : String) (options : Options) (nextId : NodeId) :
    Except Fault (Document × NodeId) := do
  let (tree, nextId) ← grammar.parse text options nextId
  return ({ grammar, text, tree := some tree, options }, nextId)

/-- Parse the whole text again. -/
def reparse (d : Document) (nextId : NodeId) : Change :=
  let statistics := { d.statistics with fallbacks := d.statistics.fallbacks + 1 }
  match d.grammar.parse d.text d.options nextId with
  | .ok (tree, nextId) => ⟨.ok .reparsed, { d with tree := some tree, statistics }, nextId⟩
  | .error fault =>
    ⟨.error fault, { d with tree := none, statistics := { statistics with failures := statistics.failures + 1 } },
      nextId⟩

/-- Answer edits that fit the document, given the text they lead to. -/
def answer (d : Document) (edits : List Edit) (text : String) (nextId : NodeId) : Change :=
  match d.tree with
  | none => reparse { d with text } nextId
  | some tree =>
    let d := { d with text, tree := none }
    match d.grammar.repair tree edits d.options nextId with
    | .ok (repaired, nextId) =>
      ⟨.ok .repaired,
        { d with tree := some repaired, statistics := { d.statistics with repairs := d.statistics.repairs + 1 } },
        nextId⟩
    | .error fault =>
      if fault.isParseFailure then reparse d nextId
      else
        ⟨.error fault, { d with statistics := { d.statistics with failures := d.statistics.failures + 1 } }, nextId⟩

/-- Edit a document. Edits that do not fit one after the other leave it as it was. -/
def edit (d : Document) (edits : List Edit) (nextId : NodeId) : Change :=
  match Edit.applyAll edits d.text with
  | .error fault => ⟨.error fault, d, nextId⟩
  | .ok text => d.answer edits text nextId

/-- Ask the calls on a document to stop, if it may be cancelled. -/
def cancel (d : Document) : Document :=
  { d with options := { d.options with cancellation := d.options.cancellation.map fun _ => ⟨true⟩ } }

end Document

end Graft
