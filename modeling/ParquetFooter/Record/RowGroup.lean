import ParquetFooter.Record.ColumnChunk

/-!
# The row group record

A horizontal slice of the rows of a file: one column chunk for every leaf of the schema, in the
order of the leaves.
-/

namespace ParquetFooter.Record

open Wire

/-- The column chunks of a slice of the rows. -/
structure RowGroup where
  /-- The chunks, in the order of the columns. -/
  columns : List ColumnChunk
  /-- The sum of the sizes of the chunks in the file. -/
  totalByteSize : Int64
  numRows : Int64
deriving DecidableEq, Repr

namespace RowGroup

/-- A row group of which fields may be missing. -/
structure Draft where
  columns : Option (List ColumnChunk)
  totalByteSize : Option Int64
  numRows : Option Int64

/-- The fields of a row group. -/
def layout : Layout RowGroup where
  Draft := Draft
  blank := ⟨none, none, none⟩
  fields := [
    ⟨1, List ColumnChunk, .list ColumnChunk.codec, Draft.columns,
      fun value draft => { draft with columns := some value }⟩,
    ⟨2, Int64, .int64, Draft.totalByteSize,
      fun value draft => { draft with totalByteSize := some value }⟩,
    ⟨3, Int64, .int64, Draft.numRows, fun value draft => { draft with numRows := some value }⟩]
  draft record := ⟨some record.columns, some record.totalByteSize, some record.numRows⟩
  finish draft := do
    let columns ← required "columns" draft.columns
    let totalByteSize ← required "total_byte_size" draft.totalByteSize
    let numRows ← required "num_rows" draft.numRows
    return ⟨columns, totalByteSize, numRows⟩

/-- How row groups are read and written. -/
def codec : Codec RowGroup := layout.codec

end RowGroup

end ParquetFooter.Record
