import ParquetFooter.Metadata.FileMetadata
import ParquetFooter.Schema.Text

/-!
# The text of file metadata

A report on a file, line by line: what holds for the whole file, its schema, and every row group
with its columns. A value that may be missing is shown as N/A when it is.
-/

namespace ParquetFooter

/-- What stands for a missing value. -/
def missingText : String := "N/A"

/-- A line of dashes. -/
def dashes : String := repeated '-' 80

/-- The text of an offset that may be missing. -/
def offsetText : Option Int64 → String
  | some offset => toString offset
  | none => missingText

/-- The text of a bound that may be missing. -/
def boundText : Option Bytes → String
  | some bytes => bytes.decimalText
  | none => missingText

/-- The text of statistics. -/
def ColumnStatistics.text (statistics : ColumnStatistics) : String :=
  "\x7bnull_count: " ++ toString statistics.nullCount ++
    ", distinct_count: " ++ toString statistics.distinctCount ++
    ", min: " ++ boundText statistics.min ++
    ", max: " ++ boundText statistics.max ++ "\x7d"

/-- The lines of a column chunk. -/
def ColumnView.lines (view : ColumnView) : List String :=
  [ "column type: " ++ Enumeration.name view.metadata.type,
    "column path: " ++ view.path.text,
    "encodings: " ++ " ".intercalate (view.metadata.encodings.map Enumeration.name),
    "file path: " ++ view.filePath.getD missingText,
    "file offset: " ++ toString view.chunk.fileOffset,
    "num of values: " ++ toString view.metadata.numValues,
    "compression: " ++ Enumeration.name view.metadata.compression,
    "total compressed size (in bytes): " ++ toString view.metadata.totalCompressedSize,
    "total uncompressed size (in bytes): " ++ toString view.metadata.totalUncompressedSize,
    "data page offset: " ++ toString view.metadata.dataPageOffset,
    "index page offset: " ++ offsetText view.metadata.indexPageOffset,
    "dictionary page offset: " ++ offsetText view.metadata.dictionaryPageOffset,
    "statistics: " ++ (if view.hasStatistics then view.statistics.text else missingText),
    "" ]

/-- The lines of the columns of a row group, of which the first has the given index. -/
def columnLines : Nat → List (Except Fault ColumnView) → List String
  | _, [] => []
  | index, column :: rest =>
    let described :=
      match column with
      | .ok view => view.lines
      | .error fault => ["error: " ++ fault.message]
    "" :: s!"column {index}:" :: dashes :: described ++ columnLines (index + 1) rest

/-- The lines of a row group. -/
def RowGroupView.lines (view : RowGroupView) : List String :=
  [ "total byte size: " ++ toString view.record.totalByteSize,
    "num of rows: " ++ toString view.record.numRows,
    "",
    "num of columns: " ++ toString view.numColumns,
    "columns: " ] ++ columnLines 0 view.columns

/-- The lines of row groups, of which the first has the given index. -/
def rowGroupLines : Nat → List RowGroupView → List String
  | _, [] => []
  | index, view :: rest =>
    s!"row group {index}:" :: dashes :: view.lines ++ rowGroupLines (index + 1) rest

/-- The line of a key and its value. -/
def Record.KeyValue.line (entry : Record.KeyValue) : String :=
  "  " ++ entry.key ++ ": " ++ entry.value.getD ""

/-- The lines of a report on a file. -/
def FileMetadata.lines (metadata : FileMetadata) : Except Breach (List String) := do
  let schema ← metadata.schema.root.lines 0
  return [ "version: " ++ toString metadata.record.version,
      "num of rows: " ++ toString metadata.record.numRows ] ++
    (metadata.record.createdBy.map ("created by: " ++ ·)).toList ++
    (match metadata.record.keyValueMetadata with
      | some entries => "metadata:" :: entries.map Record.KeyValue.line
      | none => []) ++
    schema ++
    [ "",
      "num of row groups: " ++ toString metadata.numRowGroups,
      "row groups:",
      "" ] ++ rowGroupLines 0 metadata.rowGroups

/-- A report on a file. -/
def FileMetadata.text (metadata : FileMetadata) : Except Breach String := do
  let lines ← metadata.lines
  return unlines lines

end ParquetFooter
