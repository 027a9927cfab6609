import Graft.Context

/-!
# Options

What a caller may set for one call: limits on its size, whether attempts are remembered, whether the call may be cancelled,
and what names mean at the root.
-/

namespace Graft

variable [Pattern.Compiler]

/-- Limits on one call. -/
structure Limits where
  maxInputSize : Nat := 64 * 1024 * 1024
  maxRuleDepth : Nat := 512
  maxMemoEntries : Nat := 1000000
  maxEdits : Nat := 10000
  deriving DecidableEq, Repr

/-- Limits that are never reached. -/
def Limits.unlimited : Limits :=
  ⟨largestSize, largestSize, largestSize, largestSize⟩

/-- A way to stop calls: whether stopping has been asked for. -/
structure Cancellation where
  requested : Bool
  deriving DecidableEq, Repr

/-- What a caller may set for one call. -/
structure Options where
  limits : Limits := {}
  memoize : Bool := true
  cancellation : Option Cancellation := none
  context : Context := .empty
  deriving DecidableEq

/-- Whether stopping has been asked for. -/
def Options.isCancelled (options : Options) : Bool :=
  options.cancellation.any (·.requested)

/-- What happened during one call: rules entered, attempts found and not found in the memo, subtrees reused and subtrees
derived again by a repair. -/
structure Statistics where
  entered : Nat := 0
  hits : Nat := 0
  misses : Nat := 0
  reused : Nat := 0
  rederived : Nat := 0
  deriving DecidableEq, Repr

end Graft
