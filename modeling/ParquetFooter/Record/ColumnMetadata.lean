import ParquetFooter.Record.KeyValue
import ParquetFooter.Record.Statistics

/-!
# The column metadata record

What a footer says about a column chunk: the type and path of its column, how its pages are encoded
and compressed, their sizes and offsets, and statistics of the values.
-/

namespace ParquetFooter.Record

open Wire

/-- The description of a column chunk. -/
structure ColumnMetadata where
  /-- The physical type of the column. -/
  type : PhysicalType
  /-- All encodings that occur in the chunk. -/
  encodings : List Encoding
  /-- The names from the root of the schema to the column. -/
  pathInSchema : List String
  /-- How the pages are compressed. -/
  compression : Compression
  /-- The number of values, nulls included. -/
  numValues : Int64
  /-- The size of all pages before compression. -/
  totalUncompressedSize : Int64
  /-- The size of all pages in the file. -/
  totalCompressedSize : Int64
  /-- Keys and values attached to the chunk. -/
  keyValueMetadata : Option (List KeyValue)
  /-- The offset of the first data page. -/
  dataPageOffset : Int64
  /-- The offset of the first index page. -/
  indexPageOffset : Option Int64
  dictionaryPageOffset : Option Int64
  statistics : Option Statistics
deriving DecidableEq, Repr

namespace ColumnMetadata

/-- Column metadata of which fields may be missing. -/
structure Draft where
  type : Option PhysicalType
  encodings : Option (List Encoding)
  pathInSchema : Option (List String)
  compression : Option Compression
  numValues : Option Int64
  totalUncompressedSize : Option Int64
  totalCompressedSize : Option Int64
  keyValueMetadata : Option (List KeyValue)
  dataPageOffset : Option Int64
  indexPageOffset : Option Int64
  dictionaryPageOffset : Option Int64
  statistics : Option Statistics

/-- The fields of column metadata. -/
def layout : Layout ColumnMetadata where
  Draft := Draft
  blank := ⟨none, none, none, none, none, none, none, none, none, none, none, none⟩
  fields := [
    ⟨1, PhysicalType, .enumeration PhysicalType, Draft.type,
      fun value draft => { draft with type := some value }⟩,
    ⟨2, List Encoding, .list (.enumeration Encoding), Draft.encodings,
      fun value draft => { draft with encodings := some value }⟩,
    ⟨3, List String, .list .text, Draft.pathInSchema,
      fun value draft => { draft with pathInSchema := some value }⟩,
    ⟨4, Compression, .enumeration Compression, Draft.compression,
      fun value draft => { draft with compression := some value }⟩,
    ⟨5, Int64, .int64, Draft.numValues, fun value draft => { draft with numValues := some value }⟩,
    ⟨6, Int64, .int64, Draft.totalUncompressedSize,
      fun value draft => { draft with totalUncompressedSize := some value }⟩,
    ⟨7, Int64, .int64, Draft.totalCompressedSize,
      fun value draft => { draft with totalCompressedSize := some value }⟩,
    ⟨8, List KeyValue, .list KeyValue.codec, Draft.keyValueMetadata,
      fun value draft => { draft with keyValueMetadata := some value }⟩,
    ⟨9, Int64, .int64, Draft.dataPageOffset,
      fun value draft => { draft with dataPageOffset := some value }⟩,
    ⟨10, Int64, .int64, Draft.indexPageOffset,
      fun value draft => { draft with indexPageOffset := some value }⟩,
    ⟨11, Int64, .int64, Draft.dictionaryPageOffset,
      fun value draft => { draft with dictionaryPageOffset := some value }⟩,
    ⟨12, Statistics, Statistics.codec, Draft.statistics,
      fun value draft => { draft with statistics := some value }⟩]
  draft record :=
    ⟨some record.type, some record.encodings, some record.pathInSchema, some record.compression,
      some record.numValues, some record.totalUncompressedSize, some record.totalCompressedSize,
      record.keyValueMetadata, some record.dataPageOffset, record.indexPageOffset,
      record.dictionaryPageOffset, record.statistics⟩
  finish draft := do
    let type ← required "type_" draft.type
    let encodings ← required "encodings" draft.encodings
    let pathInSchema ← required "path_in_schema" draft.pathInSchema
    let compression ← required "codec" draft.compression
    let numValues ← required "num_values" draft.numValues
    let totalUncompressedSize ← required "total_uncompressed_size" draft.totalUncompressedSize
    let totalCompressedSize ← required "total_compressed_size" draft.totalCompressedSize
    let dataPageOffset ← required "data_page_offset" draft.dataPageOffset
    return ⟨type, encodings, pathInSchema, compression, numValues, totalUncompressedSize,
      totalCompressedSize, draft.keyValueMetadata, dataPageOffset, draft.indexPageOffset,
      draft.dictionaryPageOffset, draft.statistics⟩

/-- How column metadata are read and written. -/
def codec : Codec ColumnMetadata := layout.codec

end ColumnMetadata

end ParquetFooter.Record
