import CodeCoach.Coach
import CodeCoach.CommandLine
import CodeCoach.CommandLine.Argument
import CodeCoach.CommandLine.Invocation
import CodeCoach.Config
import CodeCoach.Cooldown
import CodeCoach.Cycle
import CodeCoach.Debounce
import CodeCoach.Decimal.Binary
import CodeCoach.Decimal.Places
import CodeCoach.Decimal.Shortest
import CodeCoach.Decimal.Whole
import CodeCoach.Disk
import CodeCoach.Engine
import CodeCoach.Enhancer
import CodeCoach.Feedback
import CodeCoach.FeedbackStore
import CodeCoach.Frequency
import CodeCoach.Gate
import CodeCoach.Identifier
import CodeCoach.Instant
import CodeCoach.Instant.Text
import CodeCoach.Intervention
import CodeCoach.Issue
import CodeCoach.Json.Number
import CodeCoach.Json.Parser
import CodeCoach.Json.Printer
import CodeCoach.Json.Record
import CodeCoach.Json.Value
import CodeCoach.Learning
import CodeCoach.LogFile
import CodeCoach.Main
import CodeCoach.Path
import CodeCoach.Pattern
import CodeCoach.Pattern.Ends
import CodeCoach.Personality
import CodeCoach.Personality.Voice
import CodeCoach.Report
import CodeCoach.Review
import CodeCoach.Review.Family
import CodeCoach.Review.Finding
import CodeCoach.Review.Generic
import CodeCoach.Review.JavaScript
import CodeCoach.Review.Literal
import CodeCoach.Review.Markup
import CodeCoach.Review.NestedLoop
import CodeCoach.Review.Python
import CodeCoach.Session
import CodeCoach.Session.Basic
import CodeCoach.Session.Turn
import CodeCoach.Settings
import CodeCoach.Sorted
import CodeCoach.Storage
import CodeCoach.Table
import CodeCoach.Text.Blank
import CodeCoach.Text.Bytes
import CodeCoach.Text.Case
import CodeCoach.Text.Line
import CodeCoach.Text.Word
import CodeCoach.Toml.Parser
import CodeCoach.Toml.Scalar
import CodeCoach.Toml.Value
import CodeCoach.Wire.Coach
import CodeCoach.Wire.Feedback
import CodeCoach.Wire.Issue
import CodeCoach.Workspace
import CodeCoach.Proofs.Learning.Log
import CodeCoach.Proofs.FeedbackStore.Calls
import CodeCoach.Proofs.FeedbackStore.Learned
import CodeCoach.Proofs.Engine.Ledger
import CodeCoach.Proofs.Digits
import CodeCoach.Proofs.Instant.Calendar
import CodeCoach.Proofs.Instant.Text
import CodeCoach.Proofs.Json.Scalar
import CodeCoach.Proofs.Json.Text
import CodeCoach.Proofs.Json.Record
import CodeCoach.Proofs.Learning.Sensitivity
import CodeCoach.Proofs.Wire.Feedback
import CodeCoach.Proofs.Path
import CodeCoach.Proofs.Disk
import CodeCoach.Proofs.Storage
import CodeCoach.Proofs.FeedbackStore.Reload
import CodeCoach.Proofs.Engine.Flight
import CodeCoach.Proofs.Engine.Cycles
import CodeCoach.Proofs.Engine.InFlight
import CodeCoach.Proofs.Engine.Passes
import CodeCoach.Proofs.Engine.Delivery
import CodeCoach.Proofs.Session.Request
import CodeCoach.Proofs.Engine.Suppression
import CodeCoach.Proofs.Engine.Snapshot
import CodeCoach.Proofs.Engine.Dropped
import CodeCoach.Proofs.Engine.Desk
import CodeCoach.Proofs.Engine.Broadcast
import CodeCoach.Proofs.Debounce
import CodeCoach.Proofs.Engine.Afresh
import CodeCoach.Proofs.FeedbackStore.Failure
import CodeCoach.Proofs.Engine.Cleared
import CodeCoach.Proofs.Session.Turns
import CodeCoach.Proofs.Session.Timed
import CodeCoach.Proofs.Pattern.Place
import CodeCoach.Proofs.Pattern.Search
import CodeCoach.Proofs.Pattern.Word
import CodeCoach.Proofs.Pattern.Language
import CodeCoach.Proofs.Review.Rule
import CodeCoach.Proofs.Review.Tag
import CodeCoach.Proofs.Review.Order
import CodeCoach.Proofs.Review.Locality
import CodeCoach.Proofs.Text.Line
import CodeCoach.Proofs.Review.Literal
import CodeCoach.Proofs.Review.Quoted
import CodeCoach.Proofs.Instant.Read
import CodeCoach.Proofs.Json.Float
import CodeCoach.Proofs.Json.Reader
import CodeCoach.Proofs.Wire.Issue
import CodeCoach.Proofs.Wire.Learning
import CodeCoach.Proofs.Wire.Coach
import CodeCoach.Proofs.Wire.Codec
import CodeCoach.Proofs.Learning.Streams
import CodeCoach.Proofs.Decimal.Number
import CodeCoach.Proofs.FeedbackStore.Kinds
import CodeCoach.Proofs.Session.Rated
import CodeCoach.Proofs.Engine.Enhanced
import CodeCoach.Proofs.Review.Security
import CodeCoach.Proofs.Text.Split
import CodeCoach.Proofs.Review.Interpolation
import CodeCoach.Proofs.Review.Concatenation
import CodeCoach.Proofs.Review.NestedLoop
import CodeCoach.Proofs.Review.Outside
import CodeCoach.Proofs.Review.Mask
import CodeCoach.Proofs.Pattern.Preferred
import CodeCoach.Proofs.Review.Chain
import CodeCoach.Proofs.Review.Column
import CodeCoach.Proofs.Review.Remedy
import CodeCoach.Proofs.Review.Unguarded
import CodeCoach.Proofs.Review.CompleteLoop
import CodeCoach.Proofs.Cooldown
import CodeCoach.Proofs.Review.Element
import CodeCoach.Proofs.Review.Image
import CodeCoach.Proofs.Review.Button
import CodeCoach.Proofs.FeedbackStore.Loaded
import CodeCoach.Proofs.Storage.Directories
import CodeCoach.Proofs.Storage.Requests
import CodeCoach.Proofs.Workspace
import CodeCoach.Proofs.Coach.Command
import CodeCoach.Proofs.Review.Terminator
import CodeCoach.Proofs.Config.Layers
import CodeCoach.Proofs.Config.Unset
import CodeCoach.Proofs.FeedbackStore.Emptied
import CodeCoach.Proofs.CommandLine.Frame
