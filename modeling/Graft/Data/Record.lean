import Graft.Data
import Graft.Edit
import Graft.Identity
import Graft.Options
import Graft.Region

/-!
# Records as data

Regions, edits, statistics and identities are saved as records of sizes and texts.
-/

namespace Graft

namespace Region

/-- A region as data. -/
def encode (r : Region) : Data :=
  .object [("offset", .natural r.offset), ("length", .natural r.length)]

/-- The region that some data stands for. -/
def decode? (d : Data) : Option Region := do
  match ← d.parts? ["offset", "length"] with
  | [offset, length] => return ⟨← offset.toSize?, ← length.toSize?⟩
  | _ => none

end Region

namespace Edit

/-- An edit as data. -/
def encode (e : Edit) : Data :=
  .object [("offset", .natural e.offset), ("length", .natural e.length), ("text", .text e.text)]

/-- The edit that some data stands for. -/
def decode? (d : Data) : Option Edit := do
  match ← d.parts? ["offset", "length", "text"] with
  | [offset, length, text] => return ⟨← offset.toSize?, ← length.toSize?, ← text.toText?⟩
  | _ => none

end Edit

namespace Statistics

/-- Statistics as data. -/
def encode (s : Statistics) : Data :=
  .object [("rule_invocations", .natural s.entered), ("cache_hits", .natural s.hits), ("cache_misses", .natural s.misses),
    ("reused_nodes", .natural s.reused), ("rederived_nodes", .natural s.rederived)]

/-- The statistics that some data stands for. -/
def decode? (d : Data) : Option Statistics := do
  match ← d.parts? ["rule_invocations", "cache_hits", "cache_misses", "reused_nodes", "rederived_nodes"] with
  | [entered, hits, misses, reused, rederived] =>
    return ⟨← entered.toSize?, ← hits.toSize?, ← misses.toSize?, ← reused.toSize?, ← rederived.toSize?⟩
  | _ => none

end Statistics

namespace RuleId

/-- The largest place that a rule may have. -/
def largest : Nat := 0xFFFFFFFF

/-- The place of a rule as data. -/
def encode (rule : RuleId) : Data :=
  .natural rule.index

/-- The place of a rule that some data stands for. -/
def decode? (d : Data) : Option RuleId :=
  (d.toNatural? largest).map RuleId.mk

end RuleId

end Graft
