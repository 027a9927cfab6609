import Graft.Context
import Graft.Context.Display
import Graft.Context.Resolution
import Graft.Counter
import Graft.Data
import Graft.Data.Occurrence
import Graft.Data.Record
import Graft.Data.Statement
import Graft.Derivation
import Graft.Document
import Graft.Edit
import Graft.Engine
import Graft.Engine.Attempts
import Graft.Engine.Consume
import Graft.Engine.Container
import Graft.Engine.Gathering
import Graft.Engine.Invoke
import Graft.Fault
import Graft.Grammar
import Graft.Grammar.Draft
import Graft.Identity
import Graft.Marking
import Graft.Occurrence
import Graft.Occurrence.Printer
import Graft.Occurrence.Reader
import Graft.Options
import Graft.Parse
import Graft.Pattern
import Graft.Pattern.Automaton
import Graft.Pattern.CharacterSet
import Graft.Pattern.Compiler
import Graft.Pattern.Expression
import Graft.Pattern.Matcher
import Graft.Pattern.Program
import Graft.Pattern.Reader
import Graft.Pattern.Reader.Basic
import Graft.Pattern.Reader.Bracket
import Graft.Pattern.Reader.Escape
import Graft.Pattern.Regex
import Graft.Proofs.Abreast
import Graft.Proofs.Accounts
import Graft.Proofs.Agreement
import Graft.Proofs.AnyOrder
import Graft.Proofs.AttemptSimulation
import Graft.Proofs.Backtracking
import Graft.Proofs.Blame
import Graft.Proofs.Builtins
import Graft.Proofs.Bytes
import Graft.Proofs.Calls
import Graft.Proofs.Checked
import Graft.Proofs.Commitment
import Graft.Proofs.Completion
import Graft.Proofs.Conforms
import Graft.Proofs.Contents
import Graft.Proofs.Counting
import Graft.Proofs.Covered
import Graft.Proofs.Decides
import Graft.Proofs.Deeds
import Graft.Proofs.Dependence
import Graft.Proofs.Displaced
import Graft.Proofs.Earlier
import Graft.Proofs.Edited
import Graft.Proofs.Edits
import Graft.Proofs.Effects
import Graft.Proofs.Exhaustion
import Graft.Proofs.Following
import Graft.Proofs.Formed
import Graft.Proofs.Gathered
import Graft.Proofs.Growth
import Graft.Proofs.Halting
import Graft.Proofs.Hygiene
import Graft.Proofs.Identities
import Graft.Proofs.Inviolate
import Graft.Proofs.Kept
import Graft.Proofs.Lanes
import Graft.Proofs.Leaves
import Graft.Proofs.Ledger
import Graft.Proofs.Letters
import Graft.Proofs.Likeness
import Graft.Proofs.Limits
import Graft.Proofs.Locality
import Graft.Proofs.Lookups
import Graft.Proofs.Loops
import Graft.Proofs.Made
import Graft.Proofs.Matching
import Graft.Proofs.Maximality
import Graft.Proofs.Memo
import Graft.Proofs.Nesting
import Graft.Proofs.Offsets
import Graft.Proofs.Paths
import Graft.Proofs.Placed
import Graft.Proofs.Positions
import Graft.Proofs.Reading
import Graft.Proofs.Recalled
import Graft.Proofs.Recast
import Graft.Proofs.Replay
import Graft.Proofs.Reports
import Graft.Proofs.Reservations
import Graft.Proofs.Revisited
import Graft.Proofs.RoundTrip
import Graft.Proofs.RuleSimulation
import Graft.Proofs.Safe
import Graft.Proofs.Saved
import Graft.Proofs.Scanning
import Graft.Proofs.Session
import Graft.Proofs.Shaped
import Graft.Proofs.Shifts
import Graft.Proofs.SideBySide
import Graft.Proofs.Simulation
import Graft.Proofs.Spelled
import Graft.Proofs.Steps
import Graft.Proofs.Takes
import Graft.Proofs.Tallies
import Graft.Proofs.Tiles
import Graft.Proofs.Tokens
import Graft.Proofs.Tracks
import Graft.Proofs.Undisturbed
import Graft.Proofs.Visible
import Graft.Proofs.Whole
import Graft.Proofs.Yields
import Graft.Region
import Graft.Repair
import Graft.Run
import Graft.Samples.Documents
import Graft.Samples.Grammars
import Graft.Statement
import Graft.Statement.Scopes
import Graft.Text
import Graft.Text.Property
import Graft.Text.Quoted
import Graft.Tree
