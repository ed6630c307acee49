import PackedRecord.Code.Expr
import PackedRecord.Code.Line
import PackedRecord.Code.Meaning
import PackedRecord.Code.Program
import PackedRecord.Code.Sink
import PackedRecord.Compile
import PackedRecord.Event
import PackedRecord.FileError
import PackedRecord.Layout.Basic
import PackedRecord.Layout.Entry
import PackedRecord.Layout.Finding
import PackedRecord.Layout.Packing
import PackedRecord.Main
import PackedRecord.Record.Codec
import PackedRecord.Record.Dump
import PackedRecord.Record.Value
import PackedRecord.Record.Values
import PackedRecord.Scalar.Basic
import PackedRecord.Scalar.ByteOrder
import PackedRecord.Scalar.Kind
import PackedRecord.Session
import PackedRecord.Table.Reader
import PackedRecord.Table.Row
import PackedRecord.Text.Blank
import PackedRecord.Text.Numeral
import PackedRecord.Text.Printable
import PackedRecord.Text.Quoted
import PackedRecord.Text.Split
import PackedRecord.Text.Terminal
import PackedRecord.Tool.CommandLine
import PackedRecord.Tool.Directory
import PackedRecord.Tool.Generate
import PackedRecord.Tool.Lint
import PackedRecord.Tool.Outcome
import PackedRecord.Tool.Show
import PackedRecord.Proofs.Code.Documentation
import PackedRecord.Proofs.Machine.Pipeline
import PackedRecord.Proofs.Layout.Admission
import PackedRecord.Proofs.Layout.Packed
import PackedRecord.Proofs.Record.Fields
import PackedRecord.Proofs.Record.RoundTrip
import PackedRecord.Proofs.Code.Reader
import PackedRecord.Proofs.Code.ReadBack
import PackedRecord.Proofs.Code.Functions
import PackedRecord.Proofs.Code.Readings
import PackedRecord.Proofs.Code.Agreement
import PackedRecord.Proofs.Record.Transcoding
import PackedRecord.Proofs.Text.Digits
import PackedRecord.Proofs.Record.ValueText
import PackedRecord.Proofs.Record.Dumping
import PackedRecord.Proofs.Code.Lossless
import PackedRecord.Proofs.Table.Writing
import PackedRecord.Proofs.Layout.Reckoning
import PackedRecord.Proofs.Tool.Account
import PackedRecord.Proofs.Layout.Ranges
import PackedRecord.Proofs.Tool.Files
import PackedRecord.Proofs.Tool.Settings
import PackedRecord.Proofs.Tool.Written
import PackedRecord.Proofs.Tool.Choices
import PackedRecord.Proofs.Tool.Generating
import PackedRecord.Proofs.Machine.Decoding
import PackedRecord.Proofs.Machine.Encoding
import PackedRecord.Proofs.Record.Acceptance
import PackedRecord.Proofs.Record.Decoded
import PackedRecord.Proofs.Record.Isolation
import PackedRecord.Proofs.Record.Growth
import PackedRecord.Proofs.BlankLines
import PackedRecord.Proofs.Table.Refusals
import PackedRecord.Proofs.Code.Bounded
import PackedRecord.Proofs.Table.NameCells
import PackedRecord.Proofs.Tool.Starts
import PackedRecord.Proofs.Tool.Showing
import PackedRecord.Proofs.Code.Calls
import PackedRecord.Proofs.Code.PrintedLines
import PackedRecord.Proofs.Code.CodeLines
import PackedRecord.Proofs.Code.DocComments
import PackedRecord.Proofs.Record.ByteText
