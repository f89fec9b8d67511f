import SourceSurvey.Cache.Basic
import SourceSurvey.Cache.Record
import SourceSurvey.Calendar.Instant
import SourceSurvey.Chunk.Basic
import SourceSurvey.Chunk.Codec
import SourceSurvey.Chunk.Merge
import SourceSurvey.Chunk.Plan
import SourceSurvey.CommandLine.Amounts
import SourceSurvey.CommandLine.Arguments
import SourceSurvey.CommandLine.Invocation
import SourceSurvey.CommandLine.Perform
import SourceSurvey.CommandLine.Reply
import SourceSurvey.CommandLine.Table
import SourceSurvey.Decimal.Binary
import SourceSurvey.Decimal.Fixed
import SourceSurvey.Decimal.Shortest
import SourceSurvey.Digest.Blake3
import SourceSurvey.Digest.Hex
import SourceSurvey.Digest.Sha1
import SourceSurvey.Discovery
import SourceSurvey.Export
import SourceSurvey.Failure.Basic
import SourceSurvey.Failure.Record
import SourceSurvey.Failure.System
import SourceSurvey.Glob.Match
import SourceSurvey.Glob.Pattern
import SourceSurvey.Json.Basic
import SourceSurvey.Json.Decoder
import SourceSurvey.Json.Parser
import SourceSurvey.Json.Printer
import SourceSurvey.Lexical.Basic
import SourceSurvey.Lexical.Modes
import SourceSurvey.Main
import SourceSurvey.Memory.Ledger
import SourceSurvey.Memory.Monitor
import SourceSurvey.Module.Basic
import SourceSurvey.Module.Codec
import SourceSurvey.Outline.Extract
import SourceSurvey.Outline.Header
import SourceSurvey.Path
import SourceSurvey.PathMap
import SourceSurvey.Pipeline.Basic
import SourceSurvey.Progress.Basic
import SourceSurvey.Recovery
import SourceSurvey.Relationship
import SourceSurvey.Schedule.Attempt
import SourceSurvey.Schedule.Coordinator
import SourceSurvey.Schedule.Metrics
import SourceSurvey.Settings.Basic
import SourceSurvey.Settings.Codec
import SourceSurvey.Settings.Overrides
import SourceSurvey.Settings.Store
import SourceSurvey.Settings.Strategy
import SourceSurvey.Task.Basic
import SourceSurvey.Task.Identifier
import SourceSurvey.Text.Blank
import SourceSurvey.Text.Fields
import SourceSurvey.Text.Hex
import SourceSurvey.Text.Lines
import SourceSurvey.Text.Width
import SourceSurvey.Text.WidthTable
import SourceSurvey.Text.Word
import SourceSurvey.Text.WordTable
import SourceSurvey.Toml.Document
import SourceSurvey.Toml.Parser
import SourceSurvey.Toml.Printer
import SourceSurvey.Toml.Scalar
import SourceSurvey.Tree.Absolute
import SourceSurvey.Tree.Basic
import SourceSurvey.Tree.File
import SourceSurvey.Tree.Resolve
import SourceSurvey.Proofs.PathMap
import SourceSurvey.Proofs.Schedule.Step
import SourceSurvey.Proofs.Schedule.Conservation
import SourceSurvey.Proofs.Schedule.Rounds
import SourceSurvey.Proofs.Schedule.Independence
import SourceSurvey.Proofs.Json.RoundTrip
import SourceSurvey.Proofs.Text
import SourceSurvey.Proofs.Digest
import SourceSurvey.Proofs.Path
import SourceSurvey.Proofs.Tree.Walk
import SourceSurvey.Proofs.Tree.Names
import SourceSurvey.Proofs.Tree.Slot
import SourceSurvey.Proofs.Cache.Home
import SourceSurvey.Proofs.Cache.Codec
import SourceSurvey.Proofs.Cache.Coherent
import SourceSurvey.Proofs.Cache.Stored
import SourceSurvey.Proofs.Cache.Session
import SourceSurvey.Proofs.Schedule.Content
import SourceSurvey.Proofs.Tree.Rooted
import SourceSurvey.Proofs.Pipeline.Discovered
import SourceSurvey.Proofs.Pipeline.Visit
import SourceSurvey.Proofs.Pipeline.Stages
import SourceSurvey.Proofs.Pipeline.Gather
import SourceSurvey.Proofs.Pipeline.History
import SourceSurvey.Proofs.Text.Lines
import SourceSurvey.Proofs.Chunk.Windows
import SourceSurvey.Proofs.Outline.Walk
import SourceSurvey.Proofs.Chunk.View
import SourceSurvey.Proofs.Chunk.Clean
import SourceSurvey.Proofs.Chunk.Flat
import SourceSurvey.Proofs.Chunk.Order
import SourceSurvey.Proofs.Chunk.Bounds
import SourceSurvey.Proofs.Chunk.Context
import SourceSurvey.Proofs.Chunk.Boundary
import SourceSurvey.Proofs.Lexical.Ends
import SourceSurvey.Proofs.Calendar.Instant
import SourceSurvey.Proofs.Json.Pretty
import SourceSurvey.Proofs.Cache.Sized
import SourceSurvey.Proofs.Cache.Index
import SourceSurvey.Proofs.Pipeline.Recorded
import SourceSurvey.Proofs.Pipeline.Incremental
import SourceSurvey.Proofs.Memory.Exact
import SourceSurvey.Proofs.Memory.Holdings
import SourceSurvey.Proofs.Progress.Delivery
import SourceSurvey.Proofs.Progress.Independence
import SourceSurvey.Proofs.Schedule.Admission
import SourceSurvey.Proofs.Pipeline.Accounts
import SourceSurvey.Proofs.Cache.Shelf
import SourceSurvey.Proofs.Cache.Acts
import SourceSurvey.Proofs.Cache.Client
import SourceSurvey.Proofs.Cache.Memory
import SourceSurvey.Proofs.Cache.Filed
import SourceSurvey.Proofs.Cache.Lasting
import SourceSurvey.Proofs.Cache.Spelling
import SourceSurvey.Proofs.Cache.Interleaving
import SourceSurvey.Proofs.Cache.Overtaking
import SourceSurvey.Proofs.Chunk.Reports
import SourceSurvey.Proofs.Tree.Canonical
import SourceSurvey.Proofs.Cache.Removal
import SourceSurvey.Proofs.Cache.Invalidation
import SourceSurvey.Proofs.Cache.Cleanup
import SourceSurvey.Proofs.Cache.Healing
import SourceSurvey.Proofs.Recovery
import SourceSurvey.Proofs.Schedule.Precedence
import SourceSurvey.Proofs.Lexical.Plain
import SourceSurvey.Proofs.Grammar.Reading
import SourceSurvey.Proofs.Grammar.Signature
import SourceSurvey.Proofs.Grammar.Source
import SourceSurvey.Proofs.Grammar.Words
import SourceSurvey.Proofs.Grammar.Statements
import SourceSurvey.Proofs.Grammar.Exact
import SourceSurvey.Proofs.Relationship
import SourceSurvey.Proofs.Outline.Insertion
import SourceSurvey.Proofs.Discovery
import SourceSurvey.Proofs.Tree.Ways
import SourceSurvey.Proofs.Tree.Replace
import SourceSurvey.Proofs.Export
import SourceSurvey.Proofs.Failure
import SourceSurvey.Proofs.Settings.Digest
import SourceSurvey.Proofs.Toml.Strings
import SourceSurvey.Proofs.Toml.Values
import SourceSurvey.Proofs.Toml.Documents
import SourceSurvey.Proofs.Settings.Document
import SourceSurvey.Proofs.Tree.Single
import SourceSurvey.Proofs.Settings.Saved
import SourceSurvey.Proofs.Tree.Outcome
import SourceSurvey.Proofs.Writers
import SourceSurvey.Proofs.Lexical.Cursor
import SourceSurvey.Proofs.Lexical.Characters
