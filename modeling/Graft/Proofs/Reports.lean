import Graft.Proofs.Matching

/-!
# Matching to the end

A match is run only as far as something may still change it. Run over all the bytes, and then the end, it reports lengths on the
way, and the last one is what the run that stops early comes to: where it stops nothing is reported any more, because a dead
configuration stays dead and a final one leads to dead ones only.
-/

namespace Graft
namespace Pattern

/-- The bytes of a text are cut where the text is. -/
theorem isCut_bytes (text : String) (length : Nat) : isCut (Text.bytes text) length = Text.isBoundary text length := by
  rw [Text.isBoundary_eq, isCut]
  cases hrest : (Text.bytes text).drop length with
  | nil =>
    have hle : Text.size text ≤ length := by
      rw [← Text.length_bytes]
      exact List.drop_eq_nil_iff.1 hrest
    simp only [Text.length_bytes, Text.beginsCharacter, Bool.and_true]
    rw [Bool.eq_iff_iff, beq_iff_eq, decide_eq_true_iff]
    omega
  | cons byte rest =>
    have hlt : length < Text.size text := by
      have hlength := congrArg List.length hrest
      rw [List.length_drop, Text.length_bytes, List.length_cons] at hlength
      omega
    have hmem : byte ∈ Text.bytes text := List.mem_of_mem_drop (hrest ▸ List.mem_cons_self ..)
    have hfirst : Text.startsCharacter byte = decide byte.IsUTF8FirstByte := by
      rw [Bool.eq_iff_iff, decide_eq_true_iff]
      exact ⟨Text.isUTF8FirstByte_of_startsCharacter (Text.toNat_lt_of_mem_bytes hmem),
        Text.startsCharacter_of_isUTF8FirstByte⟩
    simp only [decide_eq_true (Nat.le_of_lt hlt), Bool.true_and, Text.beginsCharacter, hfirst]

variable [Compiler] {p : Pattern} {c : Compiler.Configuration}

/-! ## Configurations that report nothing any more -/

/-- A final configuration is one that every byte leads to a dead one, and that does not accept at the end. -/
theorem isFinal_iff : p.isFinal c = true ↔
    (∀ byte, Compiler.isDead (Compiler.step p.automaton c byte) = true) ∧ Compiler.accepts p.automaton c = false := by
  rw [isFinal, Bool.and_eq_true, Bool.not_eq_true', List.all_eq_true]
  refine and_congr_left fun _ => ⟨fun h byte => ?_, fun h byte _ => h (UInt8.ofNat byte)⟩
  have hbyte := h byte.toNat (List.mem_range.2 byte.toNat_lt)
  rwa [UInt8.ofNat_toNat] at hbyte

/-! ## Runs to the end -/

/-- The lengths that a run from a configuration reached after `read` bytes reports, in order, when it reads all the bytes and
then the end. A match is seen one byte late: by the byte behind it, or by the end. -/
def reports (p : Pattern) (c : Compiler.Configuration) (read : Nat) : List UInt8 → List Nat
  | [] => if Compiler.accepts p.automaton c then [read] else []
  | byte :: rest =>
    let c := Compiler.step p.automaton c byte
    (if Compiler.accepted c then [read] else []) ++ reports p c (read + 1) rest

/-- A dead configuration reports nothing. -/
theorem reports_of_isDead (h : Compiler.isDead c = true) (read : Nat) (bytes : List UInt8) : p.reports c read bytes = [] := by
  induction bytes generalizing c read with
  | nil =>
    rw [reports, Compiler.accepts_of_isDead h]
    rfl
  | cons byte rest ih =>
    have hstep := Compiler.isDead_step (a := p.automaton) byte h
    simp only [reports, Compiler.accepted_of_isDead hstep, ih hstep, Bool.false_eq_true, if_false, List.append_nil]

/-- A final configuration reports nothing more. -/
theorem reports_of_isFinal (h : p.isFinal c = true) (read : Nat) (bytes : List UInt8) : p.reports c read bytes = [] := by
  obtain ⟨hdead, haccepts⟩ := isFinal_iff.1 h
  cases bytes with
  | nil =>
    rw [reports, haccepts]
    rfl
  | cons byte rest =>
    simp only [reports, Compiler.accepted_of_isDead (hdead byte), reports_of_isDead (hdead byte), Bool.false_eq_true,
      if_false, List.append_nil]

/-- A run that stops early comes to the last length that is reported, or to the one it has if none is. -/
theorem length_run (p : Pattern) (c : Compiler.Configuration) (read : Nat) (best : Option Nat) (bytes : List UInt8) :
    (p.run c read best bytes).length = (p.reports c read bytes).getLast?.or best := by
  induction bytes generalizing c read best with
  | nil =>
    rw [run, reports]
    cases Compiler.accepts p.automaton c with
    | true => rfl
    | false => rfl
  | cons byte rest ih =>
    rw [run, reports]
    cases haccepted : Compiler.accepted (Compiler.step p.automaton c byte) with
    | true =>
      have hkeep : ∀ list : List Nat, ([read] ++ list).getLast?.or best = list.getLast?.or (some read) := by
        intro list
        rw [List.getLast?_append]
        cases list.getLast? with
        | none => rfl
        | some length => rfl
      simp only [if_true, hkeep]
      split
      · rename_i hfinal
        rw [reports_of_isFinal hfinal]
        rfl
      · exact ih ..
    | false =>
      simp only [Bool.false_eq_true, if_false, List.nil_append]
      split
      · rename_i hdead
        rw [reports_of_isDead hdead]
        rfl
      · exact ih ..

/-- **Stopping early never changes a match.** The length of a match in a text is the last length that a run over all bytes of the
text and its end reports, unless it lies inside a character. What was looked at goes beyond the match, and beyond the text by no
more than its end. -/
theorem matchFront_eq_last_report (p : Pattern) (text : String) :
    (p.matchFront (Text.bytes text)).length =
        (p.reports (Compiler.initial p.automaton) 0 (Text.bytes text)).getLast?.filter (Text.isBoundary text) ∧
      (∀ length, (p.matchFront (Text.bytes text)).length = some length →
        length < (p.matchFront (Text.bytes text)).examined) ∧
      (p.matchFront (Text.bytes text)).examined ≤ Text.size text + 1 := by
  refine ⟨?_, fun length h => p.length_lt_examined (Text.bytes text) h, ?_⟩
  · have hcut : isCut (Text.bytes text) = Text.isBoundary text := funext (isCut_bytes text)
    simp only [matchFront, length_run, Option.or_none, hcut]
  · rw [← Text.length_bytes]
    exact p.examined_le (Text.bytes text)

end Pattern
end Graft
