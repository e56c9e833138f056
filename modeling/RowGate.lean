import RowGate.Access.Actor
import RowGate.Access.Audit
import RowGate.Access.Decision
import RowGate.Access.Expectation
import RowGate.Access.Explanation
import RowGate.Access.Gate
import RowGate.Access.PermissionTable
import RowGate.Access.PermissionTwins
import RowGate.Access.Rehearsal
import RowGate.Access.Rule
import RowGate.Access.Template
import RowGate.Access.User
import RowGate.Cache.Basic
import RowGate.Cache.Envelope
import RowGate.Cache.Key
import RowGate.Cache.Rehearsal
import RowGate.Calendar
import RowGate.Clock
import RowGate.Config
import RowGate.Config.Program
import RowGate.Endpoint.Basic
import RowGate.Endpoint.Read
import RowGate.Endpoint.Rehearsal
import RowGate.Endpoint.Write
import RowGate.Engine.Basic
import RowGate.Engine.Rehearsal
import RowGate.Entries
import RowGate.Fault
import RowGate.Fault.Response
import RowGate.Fault.Stated
import RowGate.Json.Basic
import RowGate.Json.Reader
import RowGate.Json.Token
import RowGate.Json.Writer
import RowGate.KeyValue.Basic
import RowGate.KeyValue.Memory
import RowGate.KeyValue.Redis
import RowGate.KeyValue.Server
import RowGate.Log
import RowGate.Number.Basic
import RowGate.Number.Binary
import RowGate.Number.Decimal
import RowGate.Number.Layout
import RowGate.Number.Numeral
import RowGate.Number.Shortest
import RowGate.Plan.Call
import RowGate.Plan.Compile
import RowGate.Plan.Identifier
import RowGate.Plan.Operation
import RowGate.Plan.WindowText
import RowGate.Proofs.Access.Answered
import RowGate.Proofs.Access.Batches
import RowGate.Proofs.Access.FirstDecisive
import RowGate.Proofs.Access.Literals
import RowGate.Proofs.Access.Logging
import RowGate.Proofs.Access.Membership
import RowGate.Proofs.Access.PermissionTable
import RowGate.Proofs.Access.Positions
import RowGate.Proofs.Access.Reads
import RowGate.Proofs.Access.Refusal
import RowGate.Proofs.Access.Rereading
import RowGate.Proofs.Access.RowSoundness
import RowGate.Proofs.Access.Templates
import RowGate.Proofs.Cache.Canonical
import RowGate.Proofs.Cache.Conversation
import RowGate.Proofs.Cache.Crossing
import RowGate.Proofs.Cache.Effects
import RowGate.Proofs.Cache.Envelope
import RowGate.Proofs.Cache.Failures
import RowGate.Proofs.Cache.History
import RowGate.Proofs.Cache.Interleaving
import RowGate.Proofs.Cache.Orderly
import RowGate.Proofs.Cache.Recall
import RowGate.Proofs.Cache.Scope
import RowGate.Proofs.Cache.Tags
import RowGate.Proofs.Cache.Views
import RowGate.Proofs.Config.Programs
import RowGate.Proofs.Correspondence
import RowGate.Proofs.Endpoint.Afresh
import RowGate.Proofs.Endpoint.Conversation
import RowGate.Proofs.Endpoint.Moment
import RowGate.Proofs.Endpoint.Overlap
import RowGate.Proofs.Endpoint.Pages
import RowGate.Proofs.Endpoint.Provenance
import RowGate.Proofs.Endpoint.Reads
import RowGate.Proofs.Endpoint.Replay
import RowGate.Proofs.Endpoint.Stores
import RowGate.Proofs.Endpoint.Turns
import RowGate.Proofs.Endpoint.Uncached
import RowGate.Proofs.Endpoint.Writes
import RowGate.Proofs.Engine.Keeping
import RowGate.Proofs.Json.Interchange
import RowGate.Proofs.Json.Lexemes
import RowGate.Proofs.Json.Numbers
import RowGate.Proofs.Json.Parsing
import RowGate.Proofs.Json.Reordering
import RowGate.Proofs.Json.RoundTrip
import RowGate.Proofs.Json.Sameness
import RowGate.Proofs.Json.Separators
import RowGate.Proofs.Json.Values
import RowGate.Proofs.KeyValue.Agreement
import RowGate.Proofs.KeyValue.Memory
import RowGate.Proofs.KeyValue.Periods
import RowGate.Proofs.KeyValue.Redis
import RowGate.Proofs.Number.Digits
import RowGate.Proofs.Number.Exact
import RowGate.Proofs.Number.Lengths
import RowGate.Proofs.Number.Nearest
import RowGate.Proofs.Number.Order
import RowGate.Proofs.Number.Shortest
import RowGate.Proofs.Number.Sums
import RowGate.Proofs.Number.Texts
import RowGate.Proofs.Plan.Acceptance
import RowGate.Proofs.Plan.Aggregates
import RowGate.Proofs.Plan.Bodies
import RowGate.Proofs.Plan.Building
import RowGate.Proofs.Plan.Joiners
import RowGate.Proofs.Plan.Levels
import RowGate.Proofs.Plan.Ordering
import RowGate.Proofs.Plan.Outcomes
import RowGate.Proofs.Plan.Placeholders
import RowGate.Proofs.Plan.Reordering
import RowGate.Proofs.Plan.Scope
import RowGate.Proofs.Plan.Sources
import RowGate.Proofs.Plan.Spelling
import RowGate.Proofs.Plan.Stages
import RowGate.Proofs.Plan.Unambiguous
import RowGate.Proofs.Plan.Values
import RowGate.Proofs.Plan.Where
import RowGate.Proofs.Query.Interchange
import RowGate.Proofs.Query.Reading
import RowGate.Proofs.Query.Refusal
import RowGate.Proofs.Query.Reordering
import RowGate.Proofs.Query.Rereading
import RowGate.Proofs.Query.Written
import RowGate.Proofs.Review.Advice
import RowGate.Proofs.Review.Weight
import RowGate.Proofs.Rows.Classes
import RowGate.Proofs.Rows.Groups
import RowGate.Proofs.Rows.Leaves
import RowGate.Proofs.Rows.Pivot
import RowGate.Proofs.Script.Answered
import RowGate.Proofs.Script.Conversation
import RowGate.Proofs.Script.Run
import RowGate.Proofs.Sequence
import RowGate.Proofs.Sql.Aggregates
import RowGate.Proofs.Sql.Applied
import RowGate.Proofs.Sql.Clashes
import RowGate.Proofs.Sql.Counts
import RowGate.Proofs.Sql.Embedding
import RowGate.Proofs.Sql.Entries
import RowGate.Proofs.Sql.Fragments
import RowGate.Proofs.Sql.Meaning
import RowGate.Proofs.Sql.Namings
import RowGate.Proofs.Sql.RawText
import RowGate.Proofs.Sql.Scope
import RowGate.Proofs.Sql.Sources
import RowGate.Proofs.Sql.Taken
import RowGate.Proofs.Sql.Values
import RowGate.Proofs.Sql.Written
import RowGate.Proofs.Stateful
import RowGate.Proofs.Text.Case
import RowGate.Proofs.Text.Collection
import RowGate.Proofs.Value.Records
import RowGate.Proofs.Value.Texts
import RowGate.Query.Basic
import RowGate.Query.Params
import RowGate.Query.Reader
import RowGate.Query.Writer
import RowGate.Review.ExecutionPlan
import RowGate.Review.Explanation
import RowGate.Review.Limits
import RowGate.Review.Suggestion
import RowGate.Rows.Transform
import RowGate.Script
import RowGate.Sql.Change
import RowGate.Sql.Criterion
import RowGate.Sql.Draft
import RowGate.Sql.Literal
import RowGate.Sql.Name
import RowGate.Sql.Perform
import RowGate.Sql.RawText
import RowGate.Sql.Select
import RowGate.Sql.Writer
import RowGate.Text.Base64
import RowGate.Text.Basic
import RowGate.Text.Case
import RowGate.Text.Quoted
import RowGate.Text.Ranges
import RowGate.Text.Word
import RowGate.Value.Basic
import RowGate.Value.Equality
import RowGate.Value.Formula
import RowGate.Value.Order
import RowGate.Value.Strict
import RowGate.Value.Text
import RowGate.Value.Whole
