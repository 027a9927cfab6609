import Graft.Proofs.Agreement
import Graft.Proofs.Blame
import Graft.Proofs.Contents
import Graft.Proofs.Dependence
import Graft.Proofs.Replay

/-!
# Repairs through containers in any order

A repair replays the earlier children of a container in any order before it scans on, so the order in which they stood may
decide between edges that compete for the same text. Where no edges compete the repair of a tree agrees with a parse of the
edited text in everything but where was looked.
-/

namespace Graft

open Filter Engine

section

variable [Pattern.Compiler]

/-! ## Attempts on their own -/

/-- The setting of attempts on their own: rules are nested no deeper than some depth, and nothing is remembered. -/
def Setting.alone (grammar : Grammar) (input : String) (depth : Nat) : Setting :=
  .make grammar input { limits := { maxRuleDepth := depth }, memoize := false } {}

/-- What a rule comes to on its own, attempted from scratch. -/
def Grammar.comesTo (grammar : Grammar) (input : String) (depth : Nat) : Reading.Oracle := fun rule offset context =>
  (((atRoot (.alone grammar input depth)).fresh rule offset context).run { nextId := ⟨0⟩ }).toOption.map (·.1)

/-- A rule comes to its readings, up to identities. -/
theorem Grammar.comesTo_eq (grammar : Grammar) (input : String) (depth : Nat) (rule : RuleId) {offset : Nat}
    (context : Context) (hb : Text.isBoundary input offset = true) :
    (grammar.comesTo input depth rule offset context).map (Attempt.recast .bare) =
      (Reading.within grammar input depth rule offset context).map (Attempt.recast .bare) := by
  have hdecides := @fresh_decides_exactly _ (.alone grammar input depth) rfl rfl (depth + 1) 0 rule offset context
    { nextId := ⟨0⟩ } hb (State.ready_begin _ _)
  have hlevels : min (depth + 1) ((Setting.alone grammar input depth).limits.maxRuleDepth - 0) = depth :=
    Nat.min_eq_right (Nat.le_succ depth)
  rw [hlevels] at hdecides
  change Decides _ _ _ _ (((atRoot (.alone grammar input depth)).fresh rule offset context).run { nextId := ⟨0⟩ }) at hdecides
  rw [Grammar.comesTo]
  generalize ((atRoot (.alone grammar input depth)).fresh rule offset context).run { nextId := ⟨0⟩ } = x at hdecides ⊢
  match x with
  | .ok (a, t) =>
    obtain ⟨b, hb', hab⟩ := hdecides.exists_some
    have hsame := hab.same
    rw [Reading.shownAttempt_none, Reading.shownAttempt_none] at hsame
    change Reading.within grammar input depth rule offset context = some b at hb'
    rw [hb']
    exact congrArg some hsame
  | .error fault =>
    obtain ⟨_, hf | hnone⟩ := hdecides
    · exact absurd hf.1 id
    · have hnone' : Reading.within grammar input depth rule offset context = none := eventually_pure.1 hnone
      rw [hnone']
      rfl

/-- Where oracles agree up to identities, the same edges take part. -/
theorem Edge.takesPart_congr {R S : Nat → Reading.Oracle} {edge : Edge} {live : Context} {offset : Nat}
    (h : ∀ n, (R n edge.rule offset (edge.context live)).map (Attempt.recast .bare) =
      (S n edge.rule offset (edge.context live)).map (Attempt.recast .bare))
    (ht : edge.TakesPart R live offset) : edge.TakesPart S live offset := by
  obtain ⟨n, a, s, ha, hs, hrequires⟩ := ht
  have h1 := h n
  rw [ha, Option.map_some] at h1
  obtain ⟨b, hb, hsame⟩ := Option.map_eq_some_iff.1 h1.symm
  obtain ⟨t, ht, hst⟩ := Attempt.statement_some_of_same hsame.symm hs
  exact ⟨n, b, t, hb, ht, fun he => hrequires (by rw [Statement.region_of_same hst]; exact he)⟩

/-- Edges stand apart by what their rules come to when they do so by their readings. -/
theorem Apart.reading {grammar : Grammar} {input : String} {edges : List Edge} {live : Context}
    (h : Apart (grammar.comesTo input) input edges live) : Apart (Reading.within grammar input) input edges live := by
  intro i j edge other offset hi hj hne hb ht
  have hsame := fun n rule context => grammar.comesTo_eq input n rule context hb
  obtain ⟨⟨n, a, ha⟩, hnot⟩ :=
    h i j edge other offset hi hj hne hb (Edge.takesPart_congr (fun n => (hsame n _ _).symm) ht)
  refine ⟨?_, fun ht' => hnot (Edge.takesPart_congr (fun n => (hsame n _ _).symm) ht')⟩
  have h1 := hsame n other.rule (other.context live)
  rw [ha, Option.map_some] at h1
  obtain ⟨b, hb', _⟩ := Option.map_eq_some_iff.1 h1.symm
  exact ⟨n, b, hb'⟩

/-! ## Repairs -/

/-- Where a call comes to from its root is passed on from each rule to those that it attempts. -/
theorem Grammar.leads_passes (grammar : Grammar) (context : Context) :
    Passes grammar (grammar.Leads grammar.root context) :=
  ⟨fun h hr he => .behind h hr (List.mem_of_getElem? he), fun h hr hc => .inside h hr hc⟩

/-- On a text, no edges of a container in any order that a call may come to compete, and none requires more children than can be
counted. -/
def Grammar.Uncontested (grammar : Grammar) (context : Context) (input : String) : Prop :=
  ∀ rule edges live, grammar.Leads grammar.root context rule live →
    grammar.body? rule = some (.container .anyOrder edges) →
    Countable edges live ∧ Apart (grammar.comesTo input) input edges live

/-- **Repairs agree with parses through containers in any order.** Take a tree that comes from a parse and whose rules have
looked at something, and edits that fit its text one after the other, such that no edges compete on the edited text. As long
as no limit and no caller stops them, the repair of the tree succeeds exactly where a parse of the edited text does, and both
statements have the same contents. -/
theorem repair_agrees_where_uncontested {grammar : Grammar} {input : String} {before options options' : Options}
    {tree : Tree} {nextId next nextId' nextId'' : NodeId} (parsed : grammar.parse input before nextId = .ok (tree, next))
    (hinterest : tree.derivation.interest.length ≠ 0) {edits : List Edit} {edited : String}
    (he : Edit.applyAll edits tree.text = .ok edited) (ho : options.context = before.context)
    (ho' : options'.context = before.context) (hfree : grammar.Uncontested before.context edited)
    (hr : ∀ fault, grammar.repair tree edits options nextId' = .error fault →
      fault.kind ≠ .limitExceeded ∧ fault.kind ≠ .cancelled)
    (hp : ∀ fault, grammar.parse edited options' nextId'' = .error fault →
      fault.kind ≠ .limitExceeded ∧ fault.kind ≠ .cancelled) :
    ((∃ r, grammar.repair tree edits options nextId' = .ok r) ↔ ∃ r, grammar.parse edited options' nextId'' = .ok r) ∧
      ∀ repaired anew last last', grammar.repair tree edits options nextId' = .ok (repaired, last) →
        grammar.parse edited options' nextId'' = .ok (anew, last') →
        repaired.statement.contentsEqual anew.statement = true := by
  have hsettles := parse_settles grammar input before nextId
  rw [parsed] at hsettles
  have hreading := hsettles.isReading
  have hrepair : Settles .faint grammar edited before.context (grammar.repair tree edits options nextId') := by
    rw [← ho]
    refine repair_settles (fun _ => rfl) (grammar.leads_passes options.context) .here (by rw [ho]; exact hreading) hinterest
      he ?_ nextId'
    rintro setting rfl rfl rule edges live hleads hrule
    rw [ho] at hleads
    obtain ⟨hcount, hapart⟩ := hfree rule edges live hleads hrule
    exact replayDecides_of_apart hcount hapart.reading
  have hparse : Settles .faint grammar edited before.context (grammar.parse edited options' nextId'') := by
    rw [← ho']
    exact (parse_settles grammar edited options' nextId'').recast fun _ => rfl
  have hr' : Settles.Unstopped (grammar.repair tree edits options nextId') :=
    fun fault hf hs => hs.elim (hr fault hf).1 (hr fault hf).2
  have hp' : Settles.Unstopped (grammar.parse edited options' nextId'') :=
    fun fault hf hs => hs.elim (hp fault hf).1 (hp fault hf).2
  refine ⟨⟨?_, ?_⟩, ?_⟩
  · rintro ⟨r, h⟩
    exact hrepair.isOk_of hparse hp' h
  · rintro ⟨r, h⟩
    exact hparse.isOk_of hrepair hr' h
  · intro repaired anew last last' h h'
    rw [h] at hrepair
    rw [h'] at hparse
    have hsame := hrepair.same hparse
    simp only [Attempt.success_recast] at hsame
    exact Statement.contentsEqual_of_recast (Option.some.inj (congrArg Attempt.statement hsame))

/-! ## Letters in any order -/

/-- What a pattern below the root of a grammar of two matches comes to, on its own. -/
theorem Reading.within_anyAndOne {p q : Pattern} {input : String} {n : Nat} {r : Pattern} {id : RuleId} {offset : Nat}
    (hg : (Grammar.anyAndOne p q).getRule id = .ok ⟨none, [], .empty, .consume .keep (.pattern r)⟩)
    (hb : Text.isBoundary input offset = true) :
    within (.anyAndOne p q) input (n + 1) id offset .empty =
      matched input id offset (r.matchFront ((Text.bytes input).drop offset)) := by
  have hresolve : (Context.empty.resolvePattern (.pattern r)).toOption = some r := rfl
  rw [within, body, hg]
  simp only [Except.toOption, Option.bind_eq_bind, Option.bind_some, consume, hb, if_true]
  rfl

/-- Where an attempt of a match comes to nothing, it takes no part. -/
theorem not_takesPart_of_miss {p q : Pattern} {input : String} {r : Pattern} {edge : Edge} {offset : Nat}
    (hg : (Grammar.anyAndOne p q).getRule edge.rule = .ok ⟨none, [], .empty, .consume .keep (.pattern r)⟩)
    (hc : edge.declaring = .empty) (hb : Text.isBoundary input offset = true)
    (hm : (r.matchFront ((Text.bytes input).drop offset)).length = none) :
    ¬edge.TakesPart (Reading.within (.anyAndOne p q) input) .empty offset := by
  rintro ⟨n, a, s, ha, hs, _⟩
  have hcontext : edge.context .empty = .empty := by rw [Edge.context, hc]; rfl
  rw [hcontext] at ha
  cases n with
  | zero => cases ha
  | succ n =>
    rw [Reading.within_anyAndOne hg hb, Reading.matched, hm] at ha
    cases ha
    cases hs

/-- A grammar of two matches stays in the empty context. -/
theorem Grammar.context_of_anyAndOne {p q : Pattern} {first rule : RuleId} {live : Context}
    (h : (Grammar.anyAndOne p q).Leads first .empty rule live) : live = .empty := by
  induction h with
  | here => rfl
  | @behind owner live kind edges edge _ rules mem ih =>
    subst ih
    obtain ⟨_ | _ | _ | index⟩ := owner <;> cases rules
    simp only [List.mem_cons, List.not_mem_nil, or_false] at mem
    rcases mem with rfl | rfl <;> rfl
  | @inside owner target live inside call _ rules resolved ih =>
    obtain ⟨_ | _ | _ | index⟩ := owner <;> cases rules

end

open Pattern.Regex

/-- The letters a and b do not compete on the document b. -/
theorem uncontested_letterB : (Grammar.anyAndOne .letterA .letterB).Uncontested .empty "b" := by
  have hbytes : Text.bytes "b" = [98] := by decide +kernel
  have hsize : Text.size "b" = 1 := by decide +kernel
  -- the letter a is found nowhere
  have hmiss : ∀ offset, Text.isBoundary "b" offset = true →
      Pattern.letterA.matchFront ((Text.bytes "b").drop offset) = ⟨none, 1⟩ := by
    intro offset hb
    have hle := Text.le_size_of_isBoundary hb
    rw [hsize] at hle
    rw [hbytes]
    rcases Nat.le_one_iff_eq_zero_or_eq_one.1 hle with rfl | rfl
    · rw [List.drop_zero, Pattern.letterA_reads.matchFront_cons (by decide) (by decide)]
      decide
    · exact Pattern.letterA_reads.matchFront_nil
  intro rule edges live hleads hrule
  obtain rfl := Grammar.context_of_anyAndOne hleads
  have hedges : edges = [⟨⟨0⟩, .occurrence .any, .empty⟩, ⟨⟨1⟩, .occurrence .once, .empty⟩] := by
    obtain ⟨_ | _ | _ | index⟩ := rule <;> cases hrule
    rfl
  subst hedges
  refine ⟨?_, ?_⟩
  · intro edge hm occurrence ho
    simp only [List.mem_cons, List.not_mem_nil, or_false] at hm
    rcases hm with rfl | rfl <;> cases ho <;> decide
  · intro i j edge other offset hi hj hne hb ht
    have hnone := hmiss offset hb
    have hsame := fun (n : Nat) (rule : RuleId) (context : Context) =>
      (Grammar.anyAndOne .letterA .letterB).comesTo_eq "b" n rule context hb
    have hnot : ¬Edge.TakesPart ⟨⟨0⟩, .occurrence .any, .empty⟩
        ((Grammar.anyAndOne .letterA .letterB).comesTo "b") .empty offset := by
      intro ht
      refine not_takesPart_of_miss (p := .letterA) (q := .letterB) (r := .letterA) rfl rfl hb (by rw [hnone])
        (Edge.takesPart_congr (fun n => hsame n _ _) ht)
    rcases i with _ | _ | i
    · cases hi
      exact absurd ht hnot
    · rcases j with _ | _ | j
      · cases hj
        refine ⟨⟨1, ?_⟩, hnot⟩
        have h1 := hsame 1 ⟨0⟩ .empty
        rw [Reading.within_anyAndOne (r := .letterA) rfl hb, Reading.matched, hnone] at h1
        obtain ⟨a, ha, _⟩ := Option.map_eq_some_iff.1 h1
        exact ⟨a, ha⟩
      · exact absurd rfl hne
      · cases hj
    · cases hi

/-- A letter that is written anew below a container in any order is repaired to what a parse reads. -/
theorem repair_agrees_where_uncontested_letterB : ∃ tree repaired anew next last last',
    (Grammar.anyAndOne .letterA .letterB).parse "b" .plain ⟨0⟩ = .ok (tree, next) ∧
      (Grammar.anyAndOne .letterA .letterB).repair tree [⟨0, 1, "b"⟩] .plain ⟨2⟩ = .ok (repaired, last) ∧
      (Grammar.anyAndOne .letterA .letterB).parse "b" .plain ⟨0⟩ = .ok (anew, last') ∧
      repaired.statement.contentsEqual anew.statement = true := by
  have hone : Text.size "b" = 1 := by decide +kernel
  have hsize : Text.size "b" ≤ Options.plain.limits.maxInputSize := by decide +kernel
  have hne : Text.size "b" ≠ 0 := by rw [hone]; exact Nat.one_ne_zero
  have hp := Pattern.matchFront_letterA_b
  have hq := Pattern.matchFront_letterB
  have hend := Pattern.letterA_reads.matchFront_nil
  have he : Edit.applyAll [⟨0, 1, "b"⟩] "b" = .ok "b" := by decide +kernel
  obtain ⟨statistics, hparse⟩ := parse_anyAndOne hp hend hq hne hsize 0
  have hrepair := repair_anyAndOne hend hq hne hsize hne (by rw [hone]; exact he) 0 1 2 statistics
  rw [hone] at hrepair
  obtain ⟨⟨repaired, last⟩, hrepair⟩ := hrepair
  have hinterest : (Tree.onlyOne ⟨0⟩ ⟨1⟩ "b" statistics).derivation.interest.length ≠ 0 := Nat.succ_ne_zero _
  have hr : ∀ fault, (Grammar.anyAndOne .letterA .letterB).repair (.onlyOne ⟨0⟩ ⟨1⟩ "b" statistics) [⟨0, 1, "b"⟩] .plain ⟨2⟩ =
      .error fault → fault.kind ≠ .limitExceeded ∧ fault.kind ≠ .cancelled := by
    rw [hrepair]
    intro _ h
    cases h
  have hu : ∀ fault, (Grammar.anyAndOne .letterA .letterB).parse "b" .plain ⟨0⟩ = .error fault →
      fault.kind ≠ .limitExceeded ∧ fault.kind ≠ .cancelled := by
    rw [hparse]
    intro _ h
    cases h
  obtain ⟨_, hsame⟩ := repair_agrees_where_uncontested hparse hinterest (by rw [Tree.text_onlyOne]; exact he) rfl rfl
    uncontested_letterB hr hu
  exact ⟨_, repaired, _, _, last, _, hparse, hrepair, hparse, hsame _ _ _ _ hrepair hparse⟩

/-- A repair that succeeds where a parse does not match: any character that stood alone is replaced by the letter a, which a
parse reads by the edge that is declared first, and none is left for the other. -/
theorem exists_repair_without_parse : ∃ tree next r fault,
    (Grammar.anyAndOne .letterA .dot).parse "b" .plain ⟨0⟩ = .ok (tree, next) ∧
      Edit.applyAll [⟨0, 1, "a"⟩] tree.text = .ok "a" ∧
      (Grammar.anyAndOne .letterA .dot).repair tree [⟨0, 1, "a"⟩] .plain next = .ok r ∧
      (Grammar.anyAndOne .letterA .dot).parse "a" .plain ⟨0⟩ = .error fault ∧ fault.kind = .parseFailed := by
  have hbytesA : Text.bytes "a" = [97] := by decide +kernel
  have hbytesB : Text.bytes "b" = [98] := by decide +kernel
  have honeA : Text.size "a" = 1 := by decide +kernel
  have honeB : Text.size "b" = 1 := by decide +kernel
  have hneA : Text.size "a" ≠ 0 := by rw [honeA]; exact Nat.one_ne_zero
  have hneB : Text.size "b" ≠ 0 := by rw [honeB]; exact Nat.one_ne_zero
  have hsizeA : Text.size "a" ≤ Options.plain.limits.maxInputSize := by decide +kernel
  have hsizeB : Text.size "b" ≤ Options.plain.limits.maxInputSize := by decide +kernel
  have hend := Pattern.letterA_reads.matchFront_nil
  have hmissB := Pattern.matchFront_letterA_b
  have hletter : Pattern.letterA.matchFront (Text.bytes "a") = ⟨some (Text.size "a"), Text.size "a" + 1⟩ := by
    rw [honeA, hbytesA, Pattern.letterA_reads.matchFront_cons (by decide) (by decide)]
    decide
  have hdotA : Pattern.dot.matchFront (Text.bytes "a") = ⟨some (Text.size "a"), Text.size "a" + 1⟩ := by
    rw [honeA, hbytesA, Pattern.dot_reads.matchFront_cons (by decide) (by decide)]
    decide
  have hdotB : Pattern.dot.matchFront (Text.bytes "b") = ⟨some (Text.size "b"), Text.size "b" + 1⟩ := by
    rw [honeB, hbytesB, Pattern.dot_reads.matchFront_cons (by decide) (by decide)]
    decide
  have he : Edit.applyAll [⟨0, 1, "a"⟩] "b" = .ok "a" := by decide +kernel
  obtain ⟨statistics, hparse⟩ := parse_anyAndOne hmissB hend hdotB hneB hsizeB 0
  have hrepair := repair_anyAndOne hend hdotA hneA hsizeA hneB (by rw [honeB]; exact he) 0 1 2 statistics
  rw [honeB] at hrepair
  obtain ⟨r, hrepair⟩ := hrepair
  obtain ⟨fault, hfault, hkind⟩ :=
    parse_anyAndOne_taken hletter hend Pattern.dot_reads.matchFront_nil hneA hsizeA 0
  exact ⟨_, _, r, fault, hparse, by rw [Tree.text_onlyOne]; exact he, hrepair, hfault, hkind⟩

end Graft
