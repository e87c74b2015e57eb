import StepTree.Bundle
import StepTree.CommandLine.Arguments
import StepTree.CommandLine.Basic
import StepTree.CommandLine.Report
import StepTree.Condition.Comparison
import StepTree.Condition.Eval
import StepTree.Condition.Operand
import StepTree.Condition.Scan
import StepTree.Document.Fields
import StepTree.Document.Node
import StepTree.Executor.Rehearsal
import StepTree.Executor.Router
import StepTree.Executor.Shell
import StepTree.Executor.Web
import StepTree.FileTree
import StepTree.Json.Basic
import StepTree.Json.Layout
import StepTree.Json.Path
import StepTree.Json.Printer
import StepTree.Json.Reader
import StepTree.Library
import StepTree.Main
import StepTree.Markup.Cursor
import StepTree.Markup.Expansion
import StepTree.Markup.Scalar
import StepTree.Markup.Tag
import StepTree.Markup.Token
import StepTree.Markup.Tree
import StepTree.Number.Binary64
import StepTree.Number.Literal
import StepTree.Number.Shortest
import StepTree.Ordered
import StepTree.Proofs.CallStack
import StepTree.Proofs.Cancellation
import StepTree.Proofs.Capture
import StepTree.Proofs.Concealment
import StepTree.Proofs.Condition.Agreement
import StepTree.Proofs.Condition.Expression
import StepTree.Proofs.Condition.Malformed
import StepTree.Proofs.Condition.Node
import StepTree.Proofs.Condition.Operand
import StepTree.Proofs.Condition.Scan
import StepTree.Proofs.Condition.Sides
import StepTree.Proofs.Condition.Term
import StepTree.Proofs.Containment
import StepTree.Proofs.Declaration
import StepTree.Proofs.Documents
import StepTree.Proofs.Effects
import StepTree.Proofs.Entrusting
import StepTree.Proofs.Failures
import StepTree.Proofs.Frames
import StepTree.Proofs.Grouping
import StepTree.Proofs.Invocations
import StepTree.Proofs.Isolation
import StepTree.Proofs.Kinds
import StepTree.Proofs.Lookups
import StepTree.Proofs.Mirror
import StepTree.Proofs.Moments
import StepTree.Proofs.Noninterference
import StepTree.Proofs.Outline
import StepTree.Proofs.Overwriting
import StepTree.Proofs.Parts
import StepTree.Proofs.Phases
import StepTree.Proofs.PlainRuns
import StepTree.Proofs.Provenance
import StepTree.Proofs.Records
import StepTree.Proofs.Recount
import StepTree.Proofs.Redaction
import StepTree.Proofs.Reentry
import StepTree.Proofs.Returning
import StepTree.Proofs.RootFrame
import StepTree.Proofs.Seeding
import StepTree.Proofs.SignalInvariants
import StepTree.Proofs.Signals
import StepTree.Proofs.Simulation
import StepTree.Proofs.Statuses
import StepTree.Proofs.Termination
import StepTree.Proofs.Uncontrolled
import StepTree.Proofs.Validity
import StepTree.Proofs.Walk
import StepTree.Redaction
import StepTree.Run.Action
import StepTree.Run.Attempt
import StepTree.Run.Basic
import StepTree.Run.Call
import StepTree.Run.Plan
import StepTree.Run.Repeat
import StepTree.Run.Select
import StepTree.Run.Signals
import StepTree.Run.State
import StepTree.Run.Walk
import StepTree.Scope.Basic
import StepTree.Scope.Rendering
import StepTree.Settings
import StepTree.Shell.Arithmetic
import StepTree.Shell.Decimal
import StepTree.Shell.Expansion
import StepTree.Shell.Field
import StepTree.Shell.Format
import StepTree.Shell.Glob
import StepTree.Shell.Grammar
import StepTree.Shell.Pattern
import StepTree.Shell.Program
import StepTree.Shell.Program.Basic
import StepTree.Shell.Program.Editor
import StepTree.Shell.Program.Files
import StepTree.Shell.Program.Lines
import StepTree.Shell.Program.Search
import StepTree.Shell.Program.Values
import StepTree.Shell.Run
import StepTree.Shell.Session
import StepTree.Shell.Syntax
import StepTree.Shell.Utility.Basic
import StepTree.Shell.Utility.Control
import StepTree.Shell.Utility.Test
import StepTree.Shell.Utility.Variables
import StepTree.Template
import StepTree.Text.Basic
import StepTree.Text.Bytes
import StepTree.Trace.Basic
import StepTree.Trace.Decoding
import StepTree.Trace.Encoding
import StepTree.Trace.Event
import StepTree.Trace.Timestamp
import StepTree.Web.Address
import StepTree.Web.DomainName
import StepTree.Web.Encoding
import StepTree.Web.Host
import StepTree.Workflow.Basic
import StepTree.Workflow.Decoding
import StepTree.Workflow.Encoding
import StepTree.Workflow.Validation
import StepTree.Proofs.Isolation
import StepTree.Proofs.PlainRuns
import StepTree.Proofs.Effects
import StepTree.Proofs.Disabled
import StepTree.Proofs.Accounting
import StepTree.Proofs.Encoding.Order
import StepTree.Proofs.Encoding.Reading
import StepTree.Proofs.Encoding.Steps
import StepTree.Proofs.Encoding.Times
import StepTree.Proofs.Encoding.Records
import StepTree.Proofs.Encoding.Values
import StepTree.Proofs.Encoding.Runs
import StepTree.Proofs.Attempts
import StepTree.Proofs.Choosing
import StepTree.Proofs.Independence
import StepTree.Proofs.Carrying
import StepTree.Proofs.Issues
import StepTree.Proofs.Placeholders
import StepTree.Proofs.Hiding
import StepTree.Proofs.ArrayTexts
import StepTree.Proofs.Condition.Integers
import StepTree.Proofs.Revealing
import StepTree.Proofs.Messages
import StepTree.Proofs.Paths
import StepTree.Proofs.Visibility
