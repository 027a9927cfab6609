import Graft.Pattern.Matcher
import Graft.Proofs.Bytes

/-!
# Matching looks at what it says

A match and how far it was looked for depend only on the bytes that were looked at. At least one byte, or the end, is looked
at, and the byte behind a match always is. A match that begins between characters ends between characters.
-/

namespace Graft
namespace Pattern

/-- Whether a length in sight may be cut does not depend on what lies out of sight. -/
theorem isCut_eq_of_take_eq {U V : List UInt8} {n length : Nat} (h : U.take n = V.take n) (hl : length < n) :
    isCut V length = isCut U length := by
  by_cases hU : length < U.length
  · have hV : length < V.length := by
      have := congrArg List.length h
      rw [List.length_take, List.length_take] at this
      omega
    have hget : U[length] = V[length] := by
      have := congrArg (fun l => l[length]?) h
      simpa [List.getElem?_take, hl, hU, hV] using this
    rw [isCut, isCut, List.drop_eq_getElem_cons hU, List.drop_eq_getElem_cons hV, hget]
  · rw [Text.eq_of_take_eq_take h (by omega)]

variable [Compiler]

/-- At least one byte behind those already read is looked at. -/
theorem read_lt_examined_run (p : Pattern) (c : Compiler.Configuration) (read : Nat) (best : Option Nat) (bytes : List UInt8) :
    read < (p.run c read best bytes).examined := by
  induction bytes generalizing c read best with
  | nil => simp [run]
  | cons byte rest ih =>
    rw [run]
    split
    · split
      · simp
      · have := ih (Compiler.step p.automaton c byte) (read + 1) (some read)
        omega
    · split
      · simp
      · have := ih (Compiler.step p.automaton c byte) (read + 1) best
        omega

/-- The byte behind a match was looked at. -/
theorem length_lt_examined_run (p : Pattern) (c : Compiler.Configuration) (read : Nat) (best : Option Nat) (bytes : List UInt8)
    (hbest : ∀ n, best = some n → n ≤ read) :
    ∀ n, (p.run c read best bytes).length = some n → n < (p.run c read best bytes).examined := by
  induction bytes generalizing c read best with
  | nil =>
    intro n h
    simp only [run] at h ⊢
    split at h
    · cases h
      omega
    · have := hbest n h
      omega
  | cons byte rest ih =>
    intro n h
    rw [run] at h ⊢
    split at h
    · rename_i ha
      rw [if_pos ha]
      split at h
      · rename_i hf
        rw [if_pos hf]
        cases h
        simp
      · rename_i hf
        rw [if_neg hf]
        exact ih _ _ _ (by intro m hm; cases hm; omega) n h
    · rename_i ha
      rw [if_neg ha]
      split at h
      · rename_i hd
        rw [if_pos hd]
        have := hbest n h
        simp only
        omega
      · rename_i hd
        rw [if_neg hd]
        exact ih _ _ _ (by intro m hm; have := hbest m hm; omega) n h

/-- Nothing is looked at behind the end, which counts as one byte. -/
theorem examined_run_le (p : Pattern) (c : Compiler.Configuration) (read : Nat) (best : Option Nat) (bytes : List UInt8) :
    (p.run c read best bytes).examined ≤ read + bytes.length + 1 := by
  induction bytes generalizing c read best with
  | nil => simp [run]
  | cons byte rest ih =>
    rw [run, List.length_cons]
    split
    · split
      · simp only
        omega
      · have := ih (Compiler.step p.automaton c byte) (read + 1) (some read)
        omega
    · split
      · simp only
        omega
      · have := ih (Compiler.step p.automaton c byte) (read + 1) best
        omega

/-- A run comes to the same on bytes that agree as far as it looks. -/
theorem run_eq_of_take_eq (p : Pattern) (c : Compiler.Configuration) (read : Nat) (best : Option Nat) (U V : List UInt8)
    (h : U.take ((p.run c read best U).examined - read) = V.take ((p.run c read best U).examined - read)) :
    p.run c read best V = p.run c read best U := by
  induction U generalizing c read best V with
  | nil =>
    have hv : V = [] := by simpa [run] using h
    rw [hv]
  | cons byte rest ih =>
    -- the first byte is looked at, so the other bytes begin with it as well
    have h1 := read_lt_examined_run p c read best (byte :: rest)
    obtain ⟨m, hm⟩ : ∃ m, (p.run c read best (byte :: rest)).examined - read = m + 1 :=
      ⟨(p.run c read best (byte :: rest)).examined - read - 1, by omega⟩
    rw [hm, List.take_succ_cons] at h
    cases V with
    | nil => cases h
    | cons byte' rest' =>
      rw [List.take_succ_cons] at h
      obtain ⟨rfl, h2⟩ := List.cons_eq_cons.1 h
      rw [run] at hm ⊢
      rw [run]
      split
      · rename_i ha
        rw [if_pos ha] at hm
        split
        · rfl
        · rename_i hf
          rw [if_neg hf] at hm
          apply ih
          rw [show (p.run (Compiler.step p.automaton c byte) (read + 1) (some read) rest).examined - (read + 1) = m by omega]
          exact h2
      · rename_i ha
        rw [if_neg ha] at hm
        split
        · rfl
        · rename_i hd
          rw [if_neg hd] at hm
          apply ih
          rw [show (p.run (Compiler.step p.automaton c byte) (read + 1) best rest).examined - (read + 1) = m by omega]
          exact h2

/-- At least one byte, or the end, is looked at. -/
theorem examined_pos (p : Pattern) (bytes : List UInt8) : 0 < (p.matchFront bytes).examined :=
  read_lt_examined_run ..

/-- The byte behind a match was looked at. -/
theorem length_lt_examined (p : Pattern) (bytes : List UInt8) {n : Nat} (h : (p.matchFront bytes).length = some n) :
    n < (p.matchFront bytes).examined := by
  simp only [matchFront, Option.filter_eq_some_iff] at h
  exact length_lt_examined_run _ _ _ _ _ (by simp) n h.1

/-- At most the end is looked at behind the bytes given. -/
theorem examined_le (p : Pattern) (bytes : List UInt8) : (p.matchFront bytes).examined ≤ bytes.length + 1 := by
  have h := p.examined_run_le (Compiler.initial p.automaton) 0 none bytes
  rw [Nat.zero_add] at h
  exact h

/-- A match depends only on the bytes that were looked at. -/
theorem matchFront_eq_of_take_eq (p : Pattern) {U V : List UInt8}
    (h : U.take (p.matchFront U).examined = V.take (p.matchFront U).examined) : p.matchFront V = p.matchFront U := by
  have hrun := p.run_eq_of_take_eq (Compiler.initial p.automaton) 0 none U V h
  simp only [matchFront, hrun]
  congr 1
  cases hl : (p.run (Compiler.initial p.automaton) 0 none U).length with
  | none => rfl
  | some n =>
    have hn : n < (p.matchFront U).examined := length_lt_examined_run _ _ _ _ _ (by simp) n hl
    rw [Option.filter_some, Option.filter_some, isCut_eq_of_take_eq h hn]

/-- A match that is found at a boundary ends at one. -/
theorem isBoundary_of_matchFront {p : Pattern} {text : String} {offset length : Nat}
    (hb : Text.isBoundary text offset = true)
    (h : (p.matchFront ((Text.bytes text).drop offset)).length = some length) :
    Text.isBoundary text (offset + length) = true := by
  rw [matchFront] at h
  have hcut := (Option.filter_eq_some_iff.1 h).2
  have hle := Text.le_size_of_isBoundary hb
  rw [isCut, List.drop_drop] at hcut
  cases hrest : (Text.bytes text).drop (offset + length) with
  | nil =>
    rw [hrest] at hcut
    simp only [beq_iff_eq, List.length_drop, Text.length_bytes] at hcut
    have hend : offset + length = Text.size text := by omega
    rw [hend]
    exact Text.isBoundary_size text
  | cons byte rest =>
    rw [hrest] at hcut
    have hsize := congrArg List.length hrest
    rw [List.length_drop, Text.length_bytes, List.length_cons] at hsize
    have hmem : byte ∈ Text.bytes text := List.mem_of_mem_drop (hrest ▸ List.mem_cons_self ..)
    rw [Text.isBoundary_iff, hrest]
    exact ⟨by omega, decide_eq_true (Text.isUTF8FirstByte_of_startsCharacter (Text.toNat_lt_of_mem_bytes hmem) hcut)⟩

end Pattern
end Graft
