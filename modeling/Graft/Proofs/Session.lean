import Graft.Document
import Graft.Proofs.Inviolate
import Graft.Proofs.Letters

/-!
# Sessions

A session opens a document and makes one call on it after the other. Each call goes one of five ways: its edits do not fit and
nothing changes, the tree is repaired, the repair fails for another reason than the text, or the text is parsed anew, with or
without success. What the text, the tree and the counters are after any number of calls is read off these ways.
-/

namespace Graft.Document

/-- A call on a document. -/
inductive Call where
  | edit (edits : List Edit)
  | reparse

section

variable [Pattern.Compiler]

namespace Call

/-- The edits of a call. -/
def edits : Call → List Edit
  | .edit edits => edits
  | .reparse => []

/-- Make a call. New nodes are given identities from `nextId` on. -/
def perform : Call → Document → NodeId → Change
  | .edit edits, d, nextId => d.edit edits nextId
  | .reparse, d, nextId => d.reparse nextId

end Call

/-- A call with the document that it was made on, and the first identity that was left then. -/
structure Exchange where
  call : Call
  before : Document
  nextId : NodeId

namespace Exchange

/-- What the call came to. -/
def change (e : Exchange) : Change :=
  e.call.perform e.before e.nextId

/-- The answer of the call. -/
def answer (e : Exchange) : Except Fault EditOutcome :=
  e.change.answer

/-- The document after the call. -/
def after (e : Exchange) : Document :=
  e.change.document

/-- Whether one of the edits does not fit the text that the edits before it left. -/
def rejected (e : Exchange) : Bool :=
  !(Edit.applyAll e.call.edits e.before.text).isOk

/-- Whether the call was answered by a repair. -/
def repaired (e : Exchange) : Bool :=
  match e.answer with
  | .ok outcome => outcome == .repaired
  | .error _ => false

/-- Whether the call failed although its edits fit. -/
def failed (e : Exchange) : Bool :=
  !e.rejected && !e.answer.isOk

/-- Whether the call starts to parse the whole text. It does when that is what it asks for; and when its edits fit, but there
is no tree to repair or the repair says that the text does not match. -/
def parses (e : Exchange) : Bool :=
  match e.call with
  | .reparse => true
  | .edit edits =>
    !e.rejected &&
      match e.before.tree with
      | none => true
      | some tree =>
        match e.before.grammar.repair tree edits e.before.options e.nextId with
        | .ok _ => false
        | .error fault => fault.isParseFailure

/-- The call answers as a parse or a repair came out, and leaves the tree that it came to. -/
def Settles (e : Exchange) (outcome : EditOutcome) : Except Fault (Tree × NodeId) → Prop
  | .ok (tree, _) => e.answer = .ok outcome ∧ e.after.tree = some tree
  | .error fault => e.answer = .error fault ∧ e.after.tree = none

/-- The ways in which a call may go when its edits fit. -/
inductive Course (e : Exchange) : Prop where
  | repaired {text : String} {tree repaired : Tree} {next : NodeId} (parses : e.parses = false)
      (fits : Edit.applyAll e.call.edits e.before.text = .ok text) (present : e.before.tree = some tree)
      (repair : e.before.grammar.repair tree e.call.edits e.before.options e.nextId = .ok (repaired, next))
      (answer : e.answer = .ok .repaired)
      (after : e.after = { e.before with
        text, tree := some repaired
        statistics := { e.before.statistics with repairs := e.before.statistics.repairs + 1 } })
  | unrepaired {text : String} {tree : Tree} {fault : Fault} (parses : e.parses = false)
      (fits : Edit.applyAll e.call.edits e.before.text = .ok text) (present : e.before.tree = some tree)
      (repair : e.before.grammar.repair tree e.call.edits e.before.options e.nextId = .error fault)
      (answer : e.answer = .error fault)
      (after : e.after = { e.before with
        text, tree := none
        statistics := { e.before.statistics with failures := e.before.statistics.failures + 1 } })
  | parsed {text : String} {tree : Tree} {next : NodeId} (parses : e.parses = true)
      (fits : Edit.applyAll e.call.edits e.before.text = .ok text)
      (parse : e.before.grammar.parse text e.before.options e.nextId = .ok (tree, next))
      (answer : e.answer = .ok .reparsed)
      (after : e.after = { e.before with
        text, tree := some tree
        statistics := { e.before.statistics with fallbacks := e.before.statistics.fallbacks + 1 } })
  | unparsed {text : String} {fault : Fault} (parses : e.parses = true)
      (fits : Edit.applyAll e.call.edits e.before.text = .ok text)
      (parse : e.before.grammar.parse text e.before.options e.nextId = .error fault) (answer : e.answer = .error fault)
      (after : e.after = { e.before with
        text, tree := none
        statistics := { e.before.statistics with
          fallbacks := e.before.statistics.fallbacks + 1
          failures := e.before.statistics.failures + 1 } })

/-- A call that comes to parsing a text anew goes as that does. -/
theorem Course.of_reparse {e : Exchange} {d : Document} {text : String} (parses : e.parses = true)
    (fits : Edit.applyAll e.call.edits e.before.text = .ok text)
    (hd : { d with tree := none } = { e.before with text, tree := none }) (hc : e.change = d.reparse e.nextId) :
    e.Course := by
  obtain ⟨grammar, known, tree, options, statistics⟩ := d
  simp only [Document.mk.injEq, true_and] at hd
  obtain ⟨rfl, rfl, rfl, rfl⟩ := hd
  rw [reparse] at hc
  simp only at hc
  cases hp : e.before.grammar.parse known e.before.options e.nextId with
  | ok r =>
    rw [hp] at hc
    exact .parsed parses fits hp (congrArg Change.answer hc) (congrArg Change.document hc)
  | error fault =>
    rw [hp] at hc
    exact .unparsed parses fits hp (congrArg Change.answer hc) (congrArg Change.document hc)

/-- An edit that fits repairs the tree, or parses the text anew where that is of no use. -/
theorem course_of_edit {edits : List Edit} {d : Document} {nextId : NodeId} {text : String}
    (hfit : Edit.applyAll edits d.text = .ok text) : Course ⟨.edit edits, d, nextId⟩ := by
  have hrejected : rejected ⟨.edit edits, d, nextId⟩ = false := by
    simp only [rejected, Call.edits, hfit, Except.isOk, Except.toBool, Bool.not_true]
  have hchange : change ⟨.edit edits, d, nextId⟩ = d.answer edits text nextId := by
    simp only [change, Call.perform, Document.edit, hfit]
  rw [Document.answer] at hchange
  cases htree : d.tree with
  | none =>
    rw [htree] at hchange
    refine .of_reparse (d := { d with text }) ?_ hfit rfl hchange
    simp only [parses, hrejected, htree, Bool.not_false, Bool.and_true]
  | some tree =>
    rw [htree] at hchange
    cases hrepair : d.grammar.repair tree edits d.options nextId with
    | ok r =>
      simp only [hrepair] at hchange
      refine .repaired ?_ hfit htree hrepair (congrArg Change.answer hchange) (congrArg Change.document hchange)
      simp only [parses, htree, hrepair, Bool.and_false]
    | error fault =>
      simp only [hrepair] at hchange
      have hparses : parses ⟨.edit edits, d, nextId⟩ = fault.isParseFailure := by
        simp only [parses, hrejected, htree, hrepair, Bool.not_false, Bool.true_and]
      cases hfault : fault.isParseFailure with
      | true =>
        rw [hfault, if_pos rfl] at hchange
        exact .of_reparse (d := { d with text, tree := none }) (hparses.trans hfault) hfit rfl hchange
      | false =>
        rw [hfault, if_neg Bool.false_ne_true] at hchange
        exact .unrepaired (hparses.trans hfault) hfit htree hrepair (congrArg Change.answer hchange)
          (congrArg Change.document hchange)

/-- Every call whose edits fit goes in one of these ways. -/
theorem course (e : Exchange) (h : e.rejected = false) : e.Course := by
  obtain ⟨call, d, nextId⟩ := e
  cases call with
  | reparse => exact .of_reparse (d := d) rfl rfl rfl rfl
  | edit edits =>
    cases hfit : Edit.applyAll edits d.text with
    | ok text => exact course_of_edit hfit
    | error fault =>
      simp only [rejected, Call.edits, hfit, Except.isOk, Except.toBool, Bool.not_false, Bool.true_eq_false] at h

/-- A call whose edits do not fit says so and changes nothing. -/
theorem of_rejected (e : Exchange) (h : e.rejected = true) :
    (∃ fault, e.answer = .error fault ∧ fault.kind = .invalidEdit) ∧ e.after = e.before := by
  obtain ⟨call, d, nextId⟩ := e
  cases call with
  | reparse => cases h
  | edit edits =>
    cases hfit : Edit.applyAll edits d.text with
    | ok text =>
      simp only [rejected, Call.edits, hfit, Except.isOk, Except.toBool, Bool.not_true, Bool.false_eq_true] at h
    | error fault =>
      refine ⟨⟨fault, ?_, Edit.kind_of_applyAll hfit⟩, ?_⟩
      · simp only [answer, change, Call.perform, Document.edit, hfit]
      · simp only [after, change, Call.perform, Document.edit, hfit]

/-- A call whose edits fit leaves the text that they lead to. -/
theorem after_text (e : Exchange) (h : e.rejected = false) :
    Edit.applyAll e.call.edits e.before.text = .ok e.after.text := by
  cases e.course h with
  | repaired _ fits _ _ _ after => rw [fits, after]
  | unrepaired _ fits _ _ _ after => rw [fits, after]
  | parsed _ fits _ _ after => rw [fits, after]
  | unparsed _ fits _ _ after => rw [fits, after]

/-- A call whose edits fit leaves a tree exactly when it succeeds. -/
theorem after_tree (e : Exchange) (h : e.rejected = false) : e.after.tree.isSome = e.answer.isOk := by
  cases e.course h with
  | repaired _ _ _ _ answer after => rw [answer, after]; rfl
  | unrepaired _ _ _ _ answer after => rw [answer, after]; rfl
  | parsed _ _ _ answer after => rw [answer, after]; rfl
  | unparsed _ _ _ answer after => rw [answer, after]; rfl

/-- A call that does not fit parses nothing. -/
theorem parses_of_rejected (e : Exchange) (h : e.rejected = true) : e.parses = false := by
  rw [parses]
  split
  · rename_i hcall
    rw [rejected, hcall] at h
    cases h
  · rw [h]
    rfl

/-- A call that parses the whole text settles on what the parse comes to. -/
theorem settles_on_parse (e : Exchange) (h : e.parses = true) :
    e.Settles .reparsed (e.before.grammar.parse e.after.text e.before.options e.nextId) := by
  have hfits : e.rejected = false := by
    by_contra hr
    rw [e.parses_of_rejected (Bool.not_eq_false _ ▸ hr)] at h
    cases h
  cases e.course hfits with
  | repaired parses => rw [h] at parses; cases parses
  | unrepaired parses => rw [h] at parses; cases parses
  | parsed _ _ parse answer after =>
    rw [after, parse]
    exact ⟨answer, congrArg Document.tree after⟩
  | unparsed _ _ parse answer after =>
    rw [after, parse]
    exact ⟨answer, congrArg Document.tree after⟩

/-- A call whose edits fit, and that does not parse the whole text, settles on what the repair of the tree comes to. -/
theorem settles_on_repair (e : Exchange) (h : e.rejected = false) (hp : e.parses = false) : ∃ tree,
    e.before.tree = some tree ∧
      e.Settles .repaired (e.before.grammar.repair tree e.call.edits e.before.options e.nextId) := by
  cases e.course h with
  | repaired _ _ present repair answer after =>
    refine ⟨_, present, ?_⟩
    rw [repair]
    exact ⟨answer, congrArg Document.tree after⟩
  | unrepaired _ _ present repair answer after =>
    refine ⟨_, present, ?_⟩
    rw [repair]
    exact ⟨answer, congrArg Document.tree after⟩
  | parsed parses => rw [hp] at parses; cases parses
  | unparsed parses => rw [hp] at parses; cases parses

/-- Each counter is one higher after the calls that it counts, and else as it was. -/
theorem after_statistics (e : Exchange) :
    e.after.statistics =
      ⟨e.before.statistics.repairs + e.repaired.toNat, e.before.statistics.fallbacks + e.parses.toNat,
        e.before.statistics.failures + e.failed.toNat⟩ := by
  cases hr : e.rejected with
  | true =>
    obtain ⟨⟨fault, answer, _⟩, after⟩ := e.of_rejected hr
    simp [repaired, failed, hr, e.parses_of_rejected hr, answer, after]
  | false =>
    cases e.course hr with
    | repaired parses _ _ _ answer after =>
      simp [repaired, failed, hr, parses, answer, after, Except.isOk, Except.toBool]
    | unrepaired parses _ _ _ answer after =>
      simp [repaired, failed, hr, parses, answer, after, Except.isOk, Except.toBool]
    | parsed parses _ _ answer after =>
      simp [repaired, failed, hr, parses, answer, after, Except.isOk, Except.toBool]
    | unparsed parses _ _ answer after =>
      simp [repaired, failed, hr, parses, answer, after, Except.isOk, Except.toBool]

end Exchange

/-! ## Sequences of calls -/

/-- The calls made on a document since it was opened, and what has become of it. The calls may be asked to stop at any time. -/
inductive Session (grammar : Grammar) (options : Options) (text : String) : List Exchange → Document → Prop where
  | opened {d : Document} {nextId next : NodeId} (opened : Document.open grammar text options nextId = .ok (d, next)) :
      Session grammar options text [] d
  | call {log : List Exchange} {d : Document} (session : Session grammar options text log d) (call : Call)
      (nextId : NodeId) : Session grammar options text (log ++ [⟨call, d, nextId⟩]) (Exchange.after ⟨call, d, nextId⟩)
  | cancel {log : List Exchange} {d : Document} (session : Session grammar options text log d) :
      Session grammar options text log d.cancel

/-- The edits of the calls that were not rejected, in order. -/
def editsMade (log : List Exchange) : List Edit :=
  (log.filter fun e => !e.rejected).flatMap (·.call.edits)

/-- A document that was opened has the text it was opened on, and its counters are at zero. -/
theorem of_open {grammar : Grammar} {options : Options} {text : String} {nextId next : NodeId} {d : Document}
    (h : Document.open grammar text options nextId = .ok (d, next)) : d.text = text ∧ d.statistics = {} := by
  rw [Document.open] at h
  cases hp : grammar.parse text options nextId with
  | error fault => rw [hp] at h; cases h
  | ok r =>
    rw [hp] at h
    cases h
    exact ⟨rfl, rfl⟩

namespace Session

variable {grammar : Grammar} {options : Options} {text : String} {log : List Exchange} {d : Document}

/-- The text is the opened text with the edits made. -/
theorem text_eq (h : Session grammar options text log d) : Edit.applyAll (editsMade log) text = .ok d.text := by
  induction h with
  | opened opened =>
    rw [(of_open opened).1]
    rfl
  | @call log d _ call nextId ih =>
    rw [editsMade, List.filter_append, List.flatMap_append, Edit.applyAll, List.foldlM_append]
    rw [editsMade, Edit.applyAll] at ih
    rw [ih]
    cases hr : Exchange.rejected ⟨call, d, nextId⟩ with
    | true =>
      rw [List.filter_cons_of_neg (by rw [hr]; exact Bool.false_ne_true), (Exchange.of_rejected _ hr).2]
      rfl
    | false =>
      rw [List.filter_cons_of_pos (by rw [hr]; rfl), List.filter_nil, List.flatMap_singleton]
      exact Exchange.after_text _ hr
  | cancel _ ih => exact ih

/-- The counters count the calls. -/
theorem statistics_eq (h : Session grammar options text log d) :
    d.statistics = ⟨log.countP (·.repaired), log.countP (·.parses), log.countP (·.failed)⟩ := by
  induction h with
  | opened opened => exact (of_open opened).2
  | call _ call nextId ih =>
    have hcounted : ∀ b : Bool, b.toNat = if b then 1 else 0 := Bool.rec rfl rfl
    rw [Exchange.after_statistics, ih]
    simp only [List.countP_append, List.countP_singleton, hcounted]
  | cancel _ ih => exact ih

end Session

/-- **The books of a session.** After any calls on a document that was opened: a call with an edit that does not fit in turn was
answered with that, and changed nothing; the text is the opened text with all other edits made in order; each other call left a
tree exactly when it succeeded, and settled on a full parse of its text or else on the repair of its tree; and the counters tell
how many calls were answered by a repair, how many started a full parse, and how many failed although their edits fit. -/
theorem session_books {grammar : Grammar} {options : Options} {text : String} {log : List Exchange} {d : Document}
    (h : Session grammar options text log d) :
    (∀ e ∈ log, e.rejected = true →
      (∃ fault, e.answer = .error fault ∧ fault.kind = .invalidEdit) ∧ e.after = e.before) ∧
    Edit.applyAll (editsMade log) text = .ok d.text ∧
    (∀ e ∈ log, e.rejected = false → e.after.tree.isSome = e.answer.isOk) ∧
    (∀ e ∈ log, e.parses = true →
      e.Settles .reparsed (e.before.grammar.parse e.after.text e.before.options e.nextId)) ∧
    (∀ e ∈ log, e.rejected = false → e.parses = false → ∃ tree, e.before.tree = some tree ∧
      e.Settles .repaired (e.before.grammar.repair tree e.call.edits e.before.options e.nextId)) ∧
    d.statistics = ⟨log.countP (·.repaired), log.countP (·.parses), log.countP (·.failed)⟩ :=
  ⟨fun e _ => e.of_rejected, h.text_eq, fun e _ => e.after_tree, fun e _ => e.settles_on_parse,
    fun e _ => e.settles_on_repair, h.statistics_eq⟩

end

open Pattern.Regex

/-- A letter that is written anew is repaired, and an edit beyond it is rejected. -/
theorem session_books_letterA : ∃ log d,
    Session (.ofPattern .letterA) .plain "a" log d ∧
      log.map (·.call) = [.edit [⟨0, 1, "a"⟩], .edit [⟨9, 0, "a"⟩]] ∧ d.text = "a" ∧ d.statistics = ⟨1, 0, 0⟩ := by
  have hsize : Text.size "a" ≤ Options.plain.limits.maxInputSize := by decide +kernel
  have he : Edit.applyAll [⟨0, 1, "a"⟩] "a" = .ok "a" := by decide +kernel
  obtain ⟨statistics, hparse⟩ := parse_ofPattern Pattern.matchFront_letterA hsize 0
  obtain ⟨⟨tree, next⟩, hrepair⟩ :=
    repair_ofPattern Pattern.matchFront_letterA he Pattern.matchFront_letterA (by decide) hsize 0 1 statistics
  have hopen : Document.open (.ofPattern .letterA) "a" .plain ⟨0⟩ =
      .ok (⟨.ofPattern .letterA, "a", some (.ofMatch 0 "a" 2 statistics), .plain, {}⟩, ⟨1⟩) := by
    rw [Document.open, hparse]
    rfl
  have hmisfit : (Edit.applyAll [⟨9, 0, "a"⟩] "a").isOk = false := by decide +kernel
  have hsession := ((Session.opened hopen).call (.edit [⟨0, 1, "a"⟩]) ⟨1⟩).call (.edit [⟨9, 0, "a"⟩]) next
  simp only [Exchange.after, Exchange.change, Call.perform, Document.edit, he, Document.answer, hrepair]
    at hsession
  obtain ⟨hrejected, _⟩ := session_books hsession
  have hsame := (hrejected _ (List.mem_append_right _ (List.mem_singleton_self _))
    (by simp only [Exchange.rejected, Call.edits, hmisfit, Bool.not_false])).2
  exact ⟨_, _, hsession, rfl, congrArg Document.text hsame, congrArg Document.statistics hsame⟩

end Graft.Document
