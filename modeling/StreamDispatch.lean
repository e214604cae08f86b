import StreamDispatch.Breaker
import StreamDispatch.Breaker.Session
import StreamDispatch.Completion
import StreamDispatch.Config.Codec
import StreamDispatch.Config.Document
import StreamDispatch.Config.Load
import StreamDispatch.Config.Printer
import StreamDispatch.Config.Settings
import StreamDispatch.Decode
import StreamDispatch.Dictionary
import StreamDispatch.Dispatch.Batch
import StreamDispatch.Dispatch.Dispatcher
import StreamDispatch.Dispatch.Error
import StreamDispatch.Dispatch.Gate
import StreamDispatch.Dispatch.Host
import StreamDispatch.Dispatch.Occurrence
import StreamDispatch.Dispatch.Partition
import StreamDispatch.Dispatch.Run
import StreamDispatch.Dispatch.Schedule
import StreamDispatch.Dispatch.Sink
import StreamDispatch.Duration
import StreamDispatch.FileTree
import StreamDispatch.Handler
import StreamDispatch.Handler.Sample
import StreamDispatch.Instrumentation
import StreamDispatch.Json
import StreamDispatch.Json.Document
import StreamDispatch.Json.Parser
import StreamDispatch.Json.Printer
import StreamDispatch.Log
import StreamDispatch.Log.Setup
import StreamDispatch.Main
import StreamDispatch.Message.Codec
import StreamDispatch.Message.Event
import StreamDispatch.Message.Headers
import StreamDispatch.Message.Registration
import StreamDispatch.Number.Binary64
import StreamDispatch.Number.Integer
import StreamDispatch.Number.Shortest
import StreamDispatch.Poison.Report
import StreamDispatch.Poison.Store
import StreamDispatch.Resolver
import StreamDispatch.Text.Blank
import StreamDispatch.Text.Printable
import StreamDispatch.Text.Quoted
import StreamDispatch.Validator.Arguments
import StreamDispatch.Validator.Report
import StreamDispatch.Yaml.Char
import StreamDispatch.Yaml.Error
import StreamDispatch.Yaml.Node
import StreamDispatch.Yaml.Overlay
import StreamDispatch.Yaml.Printer
import StreamDispatch.Yaml.Scalar
import StreamDispatch.Yaml.Token
import StreamDispatch.Yaml.Token.Lexer
import StreamDispatch.Yaml.Token.Scalar
import StreamDispatch.Yaml.Token.Tag
import StreamDispatch.Yaml.Value
import StreamDispatch.Yaml.Value.Parser
import StreamDispatch.Proofs.Dispatch.Expectation
import StreamDispatch.Proofs.Dispatch.Message
import StreamDispatch.Proofs.Dispatch.Life
import StreamDispatch.Proofs.Dispatch.History
import StreamDispatch.Proofs.Dispatch.Timing
import StreamDispatch.Proofs.Dispatch.Batch
import StreamDispatch.Proofs.Dispatch.Act
import StreamDispatch.Proofs.Dispatch.Host
import StreamDispatch.Proofs.Dispatch.Tally
import StreamDispatch.Proofs.Dispatch.Course
import StreamDispatch.Proofs.Dispatch.Script
import StreamDispatch.Proofs.Dispatch.Checkpoint
import StreamDispatch.Proofs.Dispatch.Reports
import StreamDispatch.Proofs.Dispatch.Waiting
import StreamDispatch.Proofs.Dispatch.Schedule
import StreamDispatch.Proofs.Breaker.Check
import StreamDispatch.Proofs.Breaker.Session
import StreamDispatch.Proofs.Breaker.Advance
import StreamDispatch.Proofs.Breaker.Release
import StreamDispatch.Proofs.Dispatch.Gate
import StreamDispatch.Proofs.Dispatch.Lease
import StreamDispatch.Proofs.Dispatch.Bound
import StreamDispatch.Proofs.Dispatch.Pace
import StreamDispatch.Proofs.Dispatch.Slots
import StreamDispatch.Proofs.Dispatch.Greedy
import StreamDispatch.Proofs.Yaml.Entries
import StreamDispatch.Proofs.Yaml.Tree
import StreamDispatch.Proofs.Decode.Record
import StreamDispatch.Proofs.Config.Fields
import StreamDispatch.Proofs.Config.Layers
import StreamDispatch.Proofs.Number.Decimal
import StreamDispatch.Proofs.Text.Utf8
import StreamDispatch.Proofs.Message.Registration
import StreamDispatch.Proofs.Resolver
import StreamDispatch.Proofs.Dispatch.Result
import StreamDispatch.Proofs.Dispatch.Ownership
import StreamDispatch.Proofs.Config.Conditions
import StreamDispatch.Proofs.Validator.Verdict
import StreamDispatch.Proofs.FileTree
import StreamDispatch.Proofs.Poison.Store
import StreamDispatch.Proofs.Yaml.Order
import StreamDispatch.Proofs.Decode.Relation
import StreamDispatch.Proofs.Config.Relevance
import StreamDispatch.Proofs.Poison.Filing
import StreamDispatch.Proofs.FileTree.Making
import StreamDispatch.Proofs.Poison.Opening
import StreamDispatch.Proofs.Breaker.Journal
import StreamDispatch.Proofs.Breaker.Lines
import StreamDispatch.Proofs.Config.Shown
import StreamDispatch.Proofs.Completion
import StreamDispatch.Proofs.Yaml.Sameness
import StreamDispatch.Proofs.Yaml.Overlay
import StreamDispatch.Proofs.Dictionary
import StreamDispatch.Proofs.Message.Event
import StreamDispatch.Proofs.Json.Scalar
import StreamDispatch.Proofs.Json.Reading
import StreamDispatch.Proofs.Poison.Contents
import StreamDispatch.Proofs.Json.Record
import StreamDispatch.Proofs.Json.Schema
import StreamDispatch.Proofs.Json.Exchange
import StreamDispatch.Proofs.Exchange
