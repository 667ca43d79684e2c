import InventoryFeed.Catalog.Basic
import InventoryFeed.Catalog.Configured
import InventoryFeed.CommandLine.Arguments
import InventoryFeed.CommandLine.Grammar
import InventoryFeed.CommandLine.Run
import InventoryFeed.CommandLine.Shown
import InventoryFeed.CommandLine.Site
import InventoryFeed.CommandLine.Stamp
import InventoryFeed.CommandLine.Variables
import InventoryFeed.Decimal.Binary64
import InventoryFeed.Decimal.Digits
import InventoryFeed.Decimal.Layout
import InventoryFeed.Document
import InventoryFeed.Event.Message
import InventoryFeed.Event.Publisher
import InventoryFeed.Http.Framing
import InventoryFeed.Http.Response
import InventoryFeed.Job.Basic
import InventoryFeed.Job.Controller
import InventoryFeed.Job.Pass
import InventoryFeed.Job.Passes
import InventoryFeed.Job.Process
import InventoryFeed.Job.Table
import InventoryFeed.Json.Record
import InventoryFeed.Json.Scalar
import InventoryFeed.Json.Tree
import InventoryFeed.Keyed
import InventoryFeed.Main
import InventoryFeed.Names
import InventoryFeed.Proofs.Event.Publisher
import InventoryFeed.Proofs.History
import InventoryFeed.Proofs.Job.Pass
import InventoryFeed.Proofs.Job.Passes
import InventoryFeed.Proofs.Job.Process
import InventoryFeed.Proofs.Job.Table
import InventoryFeed.Proofs.Stream.Cursor
import InventoryFeed.Proofs.Stream.Handshake
import InventoryFeed.Proofs.Stream.Outbound
import InventoryFeed.Proofs.Stream.Pump
import InventoryFeed.Proofs.Stream.Recorded
import InventoryFeed.Query.Basic
import InventoryFeed.Query.Form
import InventoryFeed.Query.Wildcard
import InventoryFeed.Routing
import InventoryFeed.Row
import InventoryFeed.Search
import InventoryFeed.Settings
import InventoryFeed.Sql.Evaluate
import InventoryFeed.Sql.Extract
import InventoryFeed.Sql.Like
import InventoryFeed.Sql.Select
import InventoryFeed.Sql.Value
import InventoryFeed.Store.Basic
import InventoryFeed.Store.Error
import InventoryFeed.Store.Inventory
import InventoryFeed.Store.Query
import InventoryFeed.Store.Snapshot
import InventoryFeed.Store.Statement
import InventoryFeed.Stream.Call
import InventoryFeed.Stream.Cursor
import InventoryFeed.Stream.Error
import InventoryFeed.Stream.Handshake
import InventoryFeed.Stream.Marks
import InventoryFeed.Stream.Outbound
import InventoryFeed.Stream.Pump
import InventoryFeed.Text.Ascii
import InventoryFeed.Text.Blank
import InventoryFeed.Toml.Reader
import InventoryFeed.Toml.Scalar
import InventoryFeed.Toml.Value
import InventoryFeed.Word
import InventoryFeed.Query.Meaning
import InventoryFeed.Sql.Reading
import InventoryFeed.Proofs.Text.Digits
import InventoryFeed.Proofs.Sql.Reading
import InventoryFeed.Proofs.Catalog.Accepted
import InventoryFeed.Proofs.Routing.Condition
import InventoryFeed.Stream.Dialogue
import InventoryFeed.Proofs.Stream.Dialogue
import InventoryFeed.Document.Shape
import InventoryFeed.Proofs.Json.RoundTrip
import InventoryFeed.Http.Decoding
import InventoryFeed.Http.Course
import InventoryFeed.Proofs.Http.Chunks
import InventoryFeed.Proofs.Http.Delivery
import InventoryFeed.Proofs.Http.Course
import InventoryFeed.Proofs.Json.Nesting
import InventoryFeed.Proofs.Http.Frames
import InventoryFeed.Proofs.Stream.Completion
import InventoryFeed.Proofs.Http.Whole
import InventoryFeed.Query.Skeleton
import InventoryFeed.Proofs.Sql.Evaluate
import InventoryFeed.Proofs.Sql.Grouping
import InventoryFeed.Proofs.Sql.Order
import InventoryFeed.Proofs.Sql.Tokens
import InventoryFeed.Proofs.Routing.Route
import InventoryFeed.Proofs.Routing.Placeholders
import InventoryFeed.Proofs.Routing.Skeleton
import InventoryFeed.Store.Insertion
import InventoryFeed.Proofs.Store.Insertion
import InventoryFeed.Store.Meaning
import InventoryFeed.Proofs.Store.View
import InventoryFeed.Proofs.Json.Numeral
import InventoryFeed.Proofs.Search.Rows
import InventoryFeed.Proofs.Search.Answer
import InventoryFeed.Proofs.Store.Cursor
import InventoryFeed.Proofs.Search.Depth
import InventoryFeed.Proofs.Decimal.Binary64
import InventoryFeed.Proofs.Json.Finite
import InventoryFeed.Proofs.Decimal.Digits
import InventoryFeed.Proofs.Json.Scaling
import InventoryFeed.Proofs.Job.Apart
import InventoryFeed.Stream.Handover
import InventoryFeed.Proofs.Stream.Account
import InventoryFeed.Proofs.Stream.Handover
import InventoryFeed.Stream.Backlog
import InventoryFeed.Proofs.Stream.Backlog
import InventoryFeed.Proofs.Stream.Sinks
import InventoryFeed.Http.Reply
import InventoryFeed.Proofs.Http.Reply
import InventoryFeed.Proofs.Search.Reply
import InventoryFeed.Proofs.Stream.Reported
import InventoryFeed.Proofs.Stream.Halted
import InventoryFeed.Proofs.Job.Published
import InventoryFeed.Proofs.Job.Cancel
import InventoryFeed.Proofs.Store.Unreadable
import InventoryFeed.Proofs.Json.Record
import InventoryFeed.Proofs.Query.Form
import InventoryFeed.Proofs.Job.Form
import InventoryFeed.Query.Pattern
import InventoryFeed.Proofs.Query.Wildcard
import InventoryFeed.Text.Identifier
import InventoryFeed.Catalog.Lawful
import InventoryFeed.Proofs.Catalog.Built
import InventoryFeed.Routing.Refusal
import InventoryFeed.Proofs.Routing.Refusal
import InventoryFeed.Proofs.Json.Printed
import InventoryFeed.Event.Feed
import InventoryFeed.Proofs.Event.Form
import InventoryFeed.Proofs.Stream.Taking
import InventoryFeed.Proofs.Event.Feed
import InventoryFeed.Proofs.Traversal
import InventoryFeed.Stream.Reading
import InventoryFeed.Proofs.Stream.Reading
import InventoryFeed.Proofs.Stream.Regrouped
import InventoryFeed.Proofs.Stream.Watching
import InventoryFeed.Event.Course
import InventoryFeed.Proofs.Event.Course
import InventoryFeed.Proofs.Job.Progress
import InventoryFeed.Job.Map
import InventoryFeed.Proofs.Job.Map
import InventoryFeed.Proofs.Store.Corpus
import InventoryFeed.Catalog.Aliases
import InventoryFeed.Proofs.Catalog.Aliases
import InventoryFeed.Routing.Kind
import InventoryFeed.Proofs.Routing.Matching
import InventoryFeed.Stream.Turns
import InventoryFeed.Proofs.Stream.Turns
import InventoryFeed.Proofs.Stream.Parties
