import Graft.Proofs.Locality
import Graft.Proofs.Yields

/-!
# Loops without a bound

The engine gives its loops a budget, and ends the call when one outlasts it. Here the same loops stand without a budget, as
relations: the attempts of an edge from scratch, one after the other, and the scans of a container in any order. Each turn but the
last consumes text. So a loop that begins inside the text turns no more often than there are bytes behind the cursor, and comes to
what the engine comes to within its budget.
-/

namespace Graft

open Engine

/-- What an attempt at an offset has read starts there and ends inside the text, behind the offset unless it is empty. -/
def Attempt.Advances (input : String) (offset : Nat) (a : Attempt) : Prop :=
  ∀ s, a.statement = some s → s.region.offset = offset ∧ s.region.stop ≤ Text.size input ∧
    (s.region.isEmpty = false → offset < s.region.stop)

variable [Pattern.Compiler]

/-- Attempts inside a text advance in it. -/
def Claim.Advances (P : Claim) (input : String) : Prop :=
  ∀ rule offset context a, P rule offset context a → offset ≤ Text.size input → a.Advances input offset

omit [Pattern.Compiler] in
theorem Attempt.Advances.starts {input : String} {offset : Nat} {a : Attempt} (h : a.Advances input offset) :
    a.Starts offset :=
  fun s hs => (h s hs).1

namespace Engine

/-- The next attempt of an edge from scratch. -/
def Progress.next (A : Attempts) (p : Progress) : Run Attempt :=
  A.fresh p.lane.edge.rule p.gathering.cursor p.lane.context

/-- Attempts of an edge from scratch, one after the other, until one does not consume text or no more are accepted: what each of
them comes to, and what they come to together. -/
inductive FreshLoop (A : Attempts) : Progress → State → List (Except Fault Attempt) → Except Fault (Progress × State) → Prop where
  | full {p : Progress} {s : State} (full : p.lane.counter.acceptsMore = false) : FreshLoop A p s [] (.ok (p, s))
  | fault {p : Progress} {s : State} {fault : Fault} (more : p.lane.counter.acceptsMore = true)
      (run : p.next A s = .error fault) : FreshLoop A p s [.error fault] (.error fault)
  | last {p : Progress} {s t : State} {a : Attempt} (more : p.lane.counter.acceptsMore = true)
      (run : p.next A s = .ok (a, t)) (spent : (p.accept a).1 ≠ .consumed) :
      FreshLoop A p s [.ok a] (.ok ((p.accept a).2, t))
  | turn {p : Progress} {s t : State} {a : Attempt} {made : List (Except Fault Attempt)} {r : Except Fault (Progress × State)}
      (more : p.lane.counter.acceptsMore = true) (run : p.next A s = .ok (a, t)) (consumed : (p.accept a).1 = .consumed)
      (rest : FreshLoop A (p.accept a).2 t made r) : FreshLoop A p s (.ok a :: made) r

/-- Scans of a container in any order, one after the other, until one consumes nothing: how often it starts over, and what the
scans come to together. -/
inductive ScanLoop (A : Attempts) :
    List Lane → Gathering → State → Nat → Except Fault ((List Lane × Gathering) × State) → Prop where
  | fault {lanes : List Lane} {g : Gathering} {s : State} {fault : Fault} (run : scan A lanes g s = .error fault) :
      ScanLoop A lanes g s 0 (.error fault)
  | done {lanes lanes' : List Lane} {g g' : Gathering} {s t : State} (run : scan A lanes g s = .ok ((false, lanes', g'), t)) :
      ScanLoop A lanes g s 0 (.ok ((lanes', g'), t))
  | again {lanes lanes' : List Lane} {g g' : Gathering} {s t : State} {restarts : Nat}
      {r : Except Fault ((List Lane × Gathering) × State)} (run : scan A lanes g s = .ok ((true, lanes', g'), t))
      (rest : ScanLoop A lanes' g' t restarts r) : ScanLoop A lanes g s (restarts + 1) r

/-- Attempts of an edge do one thing. -/
theorem FreshLoop.unique {A : Attempts} {p : Progress} {s : State} {made made' : List (Except Fault Attempt)}
    {r r' : Except Fault (Progress × State)} (h : FreshLoop A p s made r) (h' : FreshLoop A p s made' r') :
    made' = made ∧ r' = r := by
  induction h generalizing made' r' with
  | full full =>
    cases h' with
    | full => exact ⟨rfl, rfl⟩
    | fault more | last more | turn more => simp [full] at more
  | fault more run =>
    cases h' with
    | full full => simp [full] at more
    | fault _ run' =>
      cases run.symm.trans run'
      exact ⟨rfl, rfl⟩
    | last _ run' | turn _ run' => cases run.symm.trans run'
  | last more run spent =>
    cases h' with
    | full full => simp [full] at more
    | fault _ run' => cases run.symm.trans run'
    | last _ run' _ =>
      cases run.symm.trans run'
      exact ⟨rfl, rfl⟩
    | turn _ run' consumed =>
      cases run.symm.trans run'
      exact absurd consumed spent
  | turn more run consumed _ ih =>
    cases h' with
    | full full => simp [full] at more
    | fault _ run' => cases run.symm.trans run'
    | last _ run' spent =>
      cases run.symm.trans run'
      exact absurd consumed spent
    | turn _ run' _ rest =>
      cases run.symm.trans run'
      obtain ⟨rfl, rfl⟩ := ih rest
      exact ⟨rfl, rfl⟩

/-- Scans do one thing. -/
theorem ScanLoop.unique {A : Attempts} {lanes : List Lane} {g : Gathering} {s : State} {n n' : Nat}
    {r r' : Except Fault ((List Lane × Gathering) × State)} (h : ScanLoop A lanes g s n r) (h' : ScanLoop A lanes g s n' r') :
    n' = n ∧ r' = r := by
  induction h generalizing n' r' with
  | fault run =>
    cases h' with
    | fault run' =>
      cases run.symm.trans run'
      exact ⟨rfl, rfl⟩
    | done run' | again run' => cases run.symm.trans run'
  | done run =>
    cases h' with
    | done run' =>
      cases run.symm.trans run'
      exact ⟨rfl, rfl⟩
    | fault run' | again run' => cases run.symm.trans run'
  | again run _ ih =>
    cases h' with
    | fault run' | done run' => cases run.symm.trans run'
    | again run' rest =>
      cases run.symm.trans run'
      obtain ⟨rfl, rfl⟩ := ih rest
      exact ⟨rfl, rfl⟩

/-! ## Budgets -/

variable {A : Attempts} {P : Claim} {input : String}

/-- No attempt inside a text takes the cursor back or out of the text. -/
theorem Progress.cursor_accept_le {p : Progress} {a : Attempt} (ha : a.Advances input p.gathering.cursor)
    (hp : p.gathering.cursor ≤ Text.size input) : (p.accept a).2.gathering.cursor ≤ Text.size input := by
  by_cases h : (p.accept a).1 = .consumed
  · obtain ⟨s, hs, he⟩ := statement_of_consumed h
    rw [accept_consumed hs he]
    exact (ha s hs).2.1
  · rw [Reading.cursor_of_not_consumed ha.starts h]
    exact hp

variable (hA : FreshYields P A) (hP : P.Advances input)
include hA hP

/-- The attempts of an edge keep to a budget of one more than the bytes that are left. -/
theorem readFresh_loop (owner : RuleId) {budget : Nat} {p : Progress} {s : State} (hs : s.Remembers P)
    (hp : p.gathering.cursor ≤ Text.size input) (hb : Text.size input - p.gathering.cursor < budget) :
    ∃ made, FreshLoop A p s made (readFresh A owner budget p s) ∧
      made.length ≤ Text.size input - p.gathering.cursor + 1 := by
  induction budget generalizing p s with
  | zero => omega
  | succ budget ih =>
    rw [readFresh_succ]
    cases hmore : p.lane.counter.acceptsMore with
    | false => exact ⟨[], .full hmore, Nat.zero_le _⟩
    | true =>
      simp only [if_true]
      rw [Run.bind_apply]
      change ∃ made, FreshLoop A p s made (p.next A s >>= _) ∧ _
      cases hr : p.next A s with
      | error fault => exact ⟨_, .fault hmore hr, Nat.succ_le_succ (Nat.zero_le _)⟩
      | ok result =>
        obtain ⟨a, t⟩ := result
        obtain ⟨ha, ht⟩ := hA _ _ _ s a t hs hr
        have hadvances := hP _ _ _ _ ha hp
        have hle := Progress.cursor_accept_le hadvances hp
        rw [Run.ok_bind]
        simp only
        split
        · rename_i hstep
          have hlt := Reading.cursor_lt_of_consumed hadvances.starts hstep
          obtain ⟨made, hloop, hlength⟩ := ih ht hle (by omega)
          refine ⟨_, .turn hmore hr hstep hloop, ?_⟩
          rw [List.length_cons]
          omega
        · rename_i hstep
          exact ⟨_, .last hmore hr hstep, Nat.succ_le_succ (Nat.zero_le _)⟩

/-- A scan that finds something takes the cursor further, and none takes it back or out of the text. -/
theorem scan_yields_cursor (lanes : List Lane) {g : Gathering} (hg : g.cursor ≤ Text.size input) :
    Yields P (fun r => r.2.2.cursor ≤ Text.size input ∧ g.cursor ≤ r.2.2.cursor ∧ (r.1 = true → g.cursor < r.2.2.cursor))
      (scan A lanes g) := by
  induction lanes generalizing g with
  | nil => exact .pure ⟨hg, Nat.le_refl _, fun h => by cases h⟩
  | cons lane lanes ih =>
    rw [scan]
    split
    · refine (hA _ _ _).bind fun a ha => ?_
      have hadvances := hP _ _ _ _ ha hg
      have hle := Progress.cursor_accept_le (p := { gathering := g, lane }) hadvances hg
      have hmono := Reading.cursor_le_accept (q := { gathering := g, lane }) hadvances.starts
      have hlt := Reading.cursor_lt_of_consumed (q := { gathering := g, lane }) hadvances.starts
      simp only
      split
      · rename_i hstep
        exact .pure ⟨hle, hmono, fun _ => hlt hstep⟩
      · refine (ih hle).bind ?_
        rintro ⟨found, rest, g1⟩ ⟨h1, h2, h3⟩
        exact .pure ⟨h1, Nat.le_trans hmono h2, fun h => Nat.lt_of_le_of_lt hmono (h3 h)⟩
    · refine (ih hg).bind ?_
      rintro ⟨found, rest, g1⟩ h
      exact .pure h

/-- The scans of a container start over no more often than there are bytes left. -/
theorem scanAll_loop (owner : RuleId) {budget : Nat} {lanes : List Lane} {g : Gathering} {s : State} (hs : s.Remembers P)
    (hg : g.cursor ≤ Text.size input) (hb : Text.size input - g.cursor < budget) :
    ∃ restarts, ScanLoop A lanes g s restarts (scanAll A owner budget lanes g s) ∧
      restarts ≤ Text.size input - g.cursor := by
  induction budget generalizing lanes g s with
  | zero => omega
  | succ budget ih =>
    rw [scanAll, Run.bind_apply]
    cases hr : scan A lanes g s with
    | error fault => exact ⟨0, .fault hr, Nat.zero_le _⟩
    | ok result =>
      obtain ⟨⟨found, lanes', g'⟩, t⟩ := result
      obtain ⟨⟨hle, _, hlt⟩, ht⟩ := scan_yields_cursor hA hP lanes hg s _ t hs hr
      rw [Run.ok_bind]
      cases found with
      | false => exact ⟨0, .done hr, Nat.zero_le _⟩
      | true =>
        have hlt := hlt rfl
        simp only at hle hlt
        obtain ⟨restarts, hloop, hbound⟩ := @ih lanes' g' t ht hle (by omega)
        exact ⟨restarts + 1, .again hr hloop, by omega⟩

end Engine

end Graft
