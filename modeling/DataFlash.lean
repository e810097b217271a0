import DataFlash.Text.Utf8
import DataFlash.Text.Blank
import DataFlash.Text.Lines
import DataFlash.Text.Shown
import DataFlash.Text.Quoted
import DataFlash.Text.Controls
import DataFlash.Number.Binary64
import DataFlash.Number.Shortest
import DataFlash.Number.Notation
import DataFlash.Number.Numeral
import DataFlash.Calendar
import DataFlash.Timestamp
import DataFlash.Value
import DataFlash.Error
import DataFlash.Record
import DataFlash.FieldType
import DataFlash.Definition
import DataFlash.Table
import DataFlash.Path
import DataFlash.Files
import DataFlash.Log.Kind
import DataFlash.Notice
import DataFlash.Feed
import DataFlash.Log.Binary
import DataFlash.Log.Text
import DataFlash.Log
import DataFlash.Clock
import DataFlash.Config
import DataFlash.Reader
import DataFlash.Power.Flags
import DataFlash.Power.Status
import DataFlash.Sink
import DataFlash.Report
import DataFlash.CommandLine
import DataFlash.Program
import DataFlash.Main
import DataFlash.Proofs.Definition
import DataFlash.Proofs.Feed
import DataFlash.Proofs.Framing
import DataFlash.Proofs.Truncation
import DataFlash.Proofs.Invariant
import DataFlash.Proofs.Cursor
import DataFlash.Proofs.Utf8
import DataFlash.Proofs.Lines
import DataFlash.Proofs.Numeral
import DataFlash.Proofs.Fields
import DataFlash.Proofs.Messages
import DataFlash.Proofs.Written
import DataFlash.Proofs.TextLine
import DataFlash.Proofs.Rewind
import DataFlash.Proofs.Queries
import DataFlash.Proofs.Events
import DataFlash.Proofs.EventLines
import DataFlash.Proofs.Opening
import DataFlash.Proofs.Agreement
import DataFlash.Proofs.Stream
import DataFlash.Proofs.SharedCursor
import DataFlash.Proofs.Restart
import DataFlash.Proofs.Changes
import DataFlash.Proofs.Outcome
import DataFlash.Proofs.Masks
import DataFlash.Proofs.Timestamp
import DataFlash.Proofs.Readback
import DataFlash.Proofs.Verbosity
import DataFlash.Proofs.Spacing
import DataFlash.Proofs.Layout
import DataFlash.Proofs.LineEnds
import DataFlash.Proofs.Continuation
import DataFlash.Proofs.Bystanders
import DataFlash.Proofs.Regions
import DataFlash.Proofs.Skipped
import DataFlash.Proofs.Places
import DataFlash.Proofs.NextMessage
import DataFlash.Proofs.Refusals
import DataFlash.Proofs.History
import DataFlash.Proofs.Grammar
import DataFlash.Proofs.Governed
import DataFlash.Proofs.FirstFault
import DataFlash.Proofs.Relearned
import DataFlash.Proofs.Ending
import DataFlash.Proofs.Calendar
import DataFlash.Proofs.Instants
import DataFlash.Proofs.Hundredths
import DataFlash.Proofs.PassedOver
import DataFlash.Proofs.Warnings
