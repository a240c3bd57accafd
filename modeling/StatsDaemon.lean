import StatsDaemon.Aggregate
import StatsDaemon.Backends.Payload
import StatsDaemon.Batch
import StatsDaemon.Batch.Json
import StatsDaemon.Binary64
import StatsDaemon.CommandLine.Arguments
import StatsDaemon.CommandLine.Response
import StatsDaemon.Config
import StatsDaemon.Config.Aggregation
import StatsDaemon.Config.Backends
import StatsDaemon.Config.Cloud
import StatsDaemon.Config.Fault
import StatsDaemon.Config.File
import StatsDaemon.Config.Internal
import StatsDaemon.Config.Limits
import StatsDaemon.Config.Log
import StatsDaemon.Config.Parsing
import StatsDaemon.Config.Receiver
import StatsDaemon.Decimal.Layout
import StatsDaemon.Decimal.Reading
import StatsDaemon.Decimal.Shortest
import StatsDaemon.Document
import StatsDaemon.Due
import StatsDaemon.Event
import StatsDaemon.Event.Json
import StatsDaemon.Flush.Collect
import StatsDaemon.Flush.Service
import StatsDaemon.Flush.Submission
import StatsDaemon.Graphite.Format
import StatsDaemon.Graphite.Sanitize
import StatsDaemon.Hosts.Cache
import StatsDaemon.Hosts.Directory
import StatsDaemon.Hosts.Lookup
import StatsDaemon.Http
import StatsDaemon.Http.Message
import StatsDaemon.Journal
import StatsDaemon.Json.Reader
import StatsDaemon.Json.Value
import StatsDaemon.Json.Writer
import StatsDaemon.Key
import StatsDaemon.Kind
import StatsDaemon.Line.Fault
import StatsDaemon.Line.Reader
import StatsDaemon.Live
import StatsDaemon.Logging
import StatsDaemon.Logging.Line
import StatsDaemon.Mailbox
import StatsDaemon.Main
import StatsDaemon.Metric
import StatsDaemon.Metric.Json
import StatsDaemon.Net.Address
import StatsDaemon.Net.Url
import StatsDaemon.Number
import StatsDaemon.Pipeline.Counts
import StatsDaemon.Pipeline.Delivery
import StatsDaemon.Pipeline.Dispatcher
import StatsDaemon.Pipeline.Drain
import StatsDaemon.Pipeline.Intake
import StatsDaemon.Pipeline.Limiter
import StatsDaemon.Pipeline.Queue
import StatsDaemon.Program.Sockets
import StatsDaemon.Proofs.Batch.Increasing
import StatsDaemon.Proofs.Batch.Sorted
import StatsDaemon.Proofs.Binary64.Nearest
import StatsDaemon.Proofs.Binary64.Packing
import StatsDaemon.Proofs.Binary64.Rounding
import StatsDaemon.Proofs.Decimal.Plain
import StatsDaemon.Proofs.Decimal.RoundTrip
import StatsDaemon.Proofs.Decimal.Shortest
import StatsDaemon.Proofs.Exact
import StatsDaemon.Proofs.Flush.History
import StatsDaemon.Proofs.Flush.Replies
import StatsDaemon.Proofs.Key
import StatsDaemon.Proofs.Line.Isolation
import StatsDaemon.Proofs.Line.RoundTrip
import StatsDaemon.Proofs.Pipeline.Amount
import StatsDaemon.Proofs.Pipeline.Conservation
import StatsDaemon.Proofs.Pipeline.Dispatch
import StatsDaemon.Proofs.Pipeline.Folding
import StatsDaemon.Proofs.Pipeline.Ownership
import StatsDaemon.Proofs.Pipeline.Scope
import StatsDaemon.Proofs.Pipeline.System
import StatsDaemon.Proofs.Receiver.Chunks
import StatsDaemon.Proofs.Series
import StatsDaemon.Proofs.Shard.Cursor
import StatsDaemon.Proofs.Shard.Cut
import StatsDaemon.Proofs.Shard.Entries
import StatsDaemon.Proofs.Shard.Ledger
import StatsDaemon.Proofs.Shard.Life
import StatsDaemon.Proofs.Shard.Operation
import StatsDaemon.Proofs.Shard.Owned
import StatsDaemon.Proofs.Shard.Refinement
import StatsDaemon.Proofs.Shard.Routing
import StatsDaemon.Proofs.Shard.Run
import StatsDaemon.Proofs.Shard.Scan
import StatsDaemon.Proofs.Shard.Schedule
import StatsDaemon.Proofs.Shard.Split
import StatsDaemon.Proofs.Shard.Totals
import StatsDaemon.Proofs.Snapshot.Merge
import StatsDaemon.Proofs.Worker.Scanning
import StatsDaemon.Receiver.Datagrams
import StatsDaemon.Receiver.Framing
import StatsDaemon.Schedule.Daemon
import StatsDaemon.Schedule.Directory
import StatsDaemon.Schedule.Late
import StatsDaemon.Schedule.Pipeline
import StatsDaemon.Schedule.Timed
import StatsDaemon.Series
import StatsDaemon.Shard
import StatsDaemon.Shutdown
import StatsDaemon.Snapshot
import StatsDaemon.Summary
import StatsDaemon.Tags
import StatsDaemon.Telemetry.Catalog
import StatsDaemon.Telemetry.Client
import StatsDaemon.Text.Blank
import StatsDaemon.Text.Integer
import StatsDaemon.Text.Pieces
import StatsDaemon.Text.Utf8
import StatsDaemon.Ticker
import StatsDaemon.Version
import StatsDaemon.Worker
import StatsDaemon.Yaml.Character
import StatsDaemon.Yaml.Node
import StatsDaemon.Yaml.Schema
import StatsDaemon.Yaml.Token
import StatsDaemon.Yaml.Token.Lexer
import StatsDaemon.Yaml.Token.Scalar
import StatsDaemon.Yaml.Writer
import StatsDaemon.Proofs.Line.Events
import StatsDaemon.Proofs.Flush.Crew
import StatsDaemon.Proofs.Flush.Shutdown
import StatsDaemon.Proofs.Hosts.Exchange
import StatsDaemon.Proofs.Hosts.Outstanding
import StatsDaemon.Proofs.Pipeline.Counting
import StatsDaemon.Proofs.Pipeline.Accounts
import StatsDaemon.Proofs.Graphite.Lines
import StatsDaemon.Proofs.Schedule.Startup
import StatsDaemon.Proofs.Pipeline.Finite
import StatsDaemon.Proofs.Pipeline.Feedback
import StatsDaemon.Proofs.Binary64.Counts
import StatsDaemon.Proofs.Graphite.Parts
import StatsDaemon.Proofs.Summary.Rank
import StatsDaemon.Proofs.Graphite.Paths
import StatsDaemon.Proofs.Json.Tokens
import StatsDaemon.Proofs.Document
import StatsDaemon.Proofs.Json.RoundTrip
import StatsDaemon.Proofs.Batch.RoundTrip
import StatsDaemon.Proofs.Config.RoundTrip
import StatsDaemon.Proofs.Yaml.Trees
import StatsDaemon.Proofs.Summary.Cuts
import StatsDaemon.Proofs.Line.Decoration
import StatsDaemon.Proofs.Pipeline.Routing
import StatsDaemon.Proofs.Shard.Cadence
import StatsDaemon.Proofs.Hosts.Eviction
import StatsDaemon.Proofs.Hosts.Lifetime
import StatsDaemon.Proofs.Identity
import StatsDaemon.Proofs.Graphite.Switches
import StatsDaemon.Proofs.Pipeline.Limiting
import StatsDaemon.Proofs.Config.OwnTags
import StatsDaemon.Proofs.Shard.Chunking
import StatsDaemon.Proofs.Shard.Forgery
import StatsDaemon.Proofs.Backends.Output
import StatsDaemon.Proofs.Mailbox
