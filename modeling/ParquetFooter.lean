import ParquetFooter.Assembly.File
import ParquetFooter.Framing.Trailer
import ParquetFooter.Metadata.Text
import ParquetFooter.Proofs.Assembly.Calls
import ParquetFooter.Proofs.Assembly.Chunk
import ParquetFooter.Proofs.Assembly.Completion
import ParquetFooter.Proofs.Assembly.Exact
import ParquetFooter.Proofs.Assembly.File
import ParquetFooter.Proofs.Assembly.Labels
import ParquetFooter.Proofs.Assembly.Outcome
import ParquetFooter.Proofs.Assembly.Refusal
import ParquetFooter.Proofs.Assembly.RoundTrip
import ParquetFooter.Proofs.Assembly.RowGroup
import ParquetFooter.Proofs.Assembly.RunningSum
import ParquetFooter.Proofs.Assembly.Sizes
import ParquetFooter.Proofs.Assembly.Slots
import ParquetFooter.Proofs.Consumption
import ParquetFooter.Proofs.Failure
import ParquetFooter.Proofs.Framing.Load
import ParquetFooter.Proofs.Framing.RoundTrip
import ParquetFooter.Proofs.Framing.Sources
import ParquetFooter.Proofs.Framing.Tail
import ParquetFooter.Proofs.Metadata.Acceptance
import ParquetFooter.Proofs.Metadata.Refusal
import ParquetFooter.Proofs.Metadata.Views
import ParquetFooter.Proofs.Policy
import ParquetFooter.Proofs.Reader
import ParquetFooter.Proofs.Record.Compatibility
import ParquetFooter.Proofs.Record.Lawful
import ParquetFooter.Proofs.Record.Length
import ParquetFooter.Proofs.Record.Lists
import ParquetFooter.Proofs.Record.RoundTrip
import ParquetFooter.Proofs.Record.Stepping
import ParquetFooter.Proofs.Record.Truncation
import ParquetFooter.Proofs.Schema.Canonical
import ParquetFooter.Proofs.Schema.Columns
import ParquetFooter.Proofs.Schema.Forest
import ParquetFooter.Proofs.Schema.Levels
import ParquetFooter.Proofs.Schema.Listing
import ParquetFooter.Proofs.Schema.Nesting
import ParquetFooter.Proofs.Schema.Parse
import ParquetFooter.Proofs.Schema.Reread
import ParquetFooter.Proofs.Schema.RoundTrip
import ParquetFooter.Proofs.Schema.Shape
import ParquetFooter.Proofs.Schema.Text
import ParquetFooter.Proofs.Schema.Ways
import ParquetFooter.Proofs.Wire.Codec
import ParquetFooter.Proofs.Wire.Extent
import ParquetFooter.Proofs.Wire.Fields
import ParquetFooter.Proofs.Wire.Header
import ParquetFooter.Proofs.Wire.Integer
import ParquetFooter.Proofs.Wire.Layout
import ParquetFooter.Proofs.Wire.Length
import ParquetFooter.Proofs.Wire.Occurrence
import ParquetFooter.Proofs.Wire.Skip
import ParquetFooter.Proofs.Wire.Stepping
import ParquetFooter.Proofs.Wire.Value
import ParquetFooter.Proofs.Wire.Vlq
