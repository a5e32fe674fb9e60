import ParquetFooter.Metadata.ColumnStatistics
import ParquetFooter.Record.Footer
import ParquetFooter.Schema.Basic
import ParquetFooter.Schema.Flattened

/-!
# File metadata

`FileMetadata` is a footer whose schema was read and whose row groups were found to match it: each
has one chunk with metadata for every leaf. `FileMetadata.ofRecord` makes that check; `decode` and
`encode` go to and from bytes.

A `RowGroupView` and a `ColumnView` look at a part of it together with the part of the schema that
describes it.
-/

namespace ParquetFooter

open Record

/-- A footer with its schema. -/
structure FileMetadata where
  record : Footer
  /-- The schema that its elements describe. -/
  schema : Schema
deriving DecidableEq

/-- Checks that a row group has a chunk with metadata for each of `columns` columns. -/
def checkRowGroup (columns index : Nat) (rowGroup : RowGroup) : Except Fault Unit :=
  if rowGroup.columns.length ≠ columns then
    .error (.defect (.columnCount columns index rowGroup.columns.length))
  else
    match rowGroup.columns.findIdx? (·.metadata.isNone) with
    | some column => .error (.defect (.columnWithoutMetadata column index))
    | none => .ok ()

/-- Checks row groups, of which the first has the given index. -/
def checkRowGroups (columns : Nat) : Nat → List RowGroup → Except Fault Unit
  | _, [] => .ok ()
  | index, rowGroup :: rest => do
    checkRowGroup columns index rowGroup
    checkRowGroups columns (index + 1) rest

/-- A row group with the schema of its columns. -/
structure RowGroupView where
  record : RowGroup
  schema : Schema
deriving DecidableEq

/-- A column chunk with its column. -/
structure ColumnView where
  chunk : ColumnChunk
  metadata : ColumnMetadata
  column : Column Primitive
deriving DecidableEq

namespace FileMetadata

/-- The metadata of a footer, when its schema can be read and its row groups match it. -/
def ofRecord (record : Footer) : Except Failure FileMetadata := do
  let root ← Node.ofElements record.schema
  let schema ← Schema.ofNode root
  checkRowGroups schema.numColumns 0 record.rowGroups
  return ⟨record, schema⟩

/-- The metadata at the front of some bytes and the number of bytes that they take. -/
def decodeWithLength (bytes : Bytes) : Except Failure (FileMetadata × Nat) := do
  let (record, length) ← Footer.decode bytes
  return (← ofRecord record, length)

/-- The metadata at the front of some bytes. -/
def decode (bytes : Bytes) : Except Failure FileMetadata := do
  let (metadata, _) ← decodeWithLength bytes
  return metadata

/-- The bytes of metadata. -/
def encode (metadata : FileMetadata) : Bytes := metadata.record.encode

/-- The number of row groups. -/
def numRowGroups (metadata : FileMetadata) : Nat := metadata.record.rowGroups.length

/-- The row group with an index. -/
def rowGroup (metadata : FileMetadata) (index : Nat) : Except Fault RowGroupView :=
  match metadata.record.rowGroups[index]? with
  | some record => .ok ⟨record, metadata.schema⟩
  | none => .error (.indexOutOfBound index metadata.numRowGroups)

/-- All row groups, in the order of the file. -/
def rowGroups (metadata : FileMetadata) : List RowGroupView :=
  metadata.record.rowGroups.map fun record => ⟨record, metadata.schema⟩

end FileMetadata

namespace RowGroupView

/-- The number of columns. -/
def numColumns (view : RowGroupView) : Nat := view.record.columns.length

/-- The column with an index. -/
def column (view : RowGroupView) (index : Nat) : Except Fault ColumnView :=
  match view.record.columns[index]? with
  | none => .error (.indexOutOfBound index view.numColumns)
  | some chunk =>
    match view.schema.leaves[index]? with
    | none => .error (.indexOutOfBound index view.schema.numColumns)
    | some leaf =>
      match chunk.metadata with
      | none => .error (.defect .chunkWithoutMetadata)
      | some metadata => .ok ⟨chunk, metadata, leaf.toColumn⟩

/-- All columns, in the order of the schema. -/
def columns (view : RowGroupView) : List (Except Fault ColumnView) :=
  (List.range view.numColumns).map view.column

end RowGroupView

namespace ColumnView

/-- The file that holds the data, when it is not that of the footer; an empty name means none. -/
def filePath (view : ColumnView) : Option String := view.chunk.filePath.filter (· ≠ "")

/-- The path that the chunk gives for its column. -/
def path (view : ColumnView) : ColumnPath := ⟨view.metadata.pathInSchema⟩

/-- Whether the chunk has a dictionary page. -/
def hasDictionaryPage (view : ColumnView) : Bool := view.metadata.dictionaryPageOffset.isSome

/-- Whether the chunk has statistics. -/
def hasStatistics (view : ColumnView) : Bool := view.metadata.statistics.isSome

/-- The statistics of the chunk, unknown when it has none. -/
def statistics (view : ColumnView) : ColumnStatistics :=
  ColumnStatistics.ofRecord view.metadata.statistics

end ColumnView

end ParquetFooter
