import ParquetFooter.Record.ColumnMetadata

/-!
# The column chunk record

Where the data of a column chunk lie, with their description. Metadata may be kept apart in
encrypted form; such a chunk is refused as soon as that field is met.
-/

namespace ParquetFooter.Record

open Wire

/-- The place of a column chunk and its description. -/
structure ColumnChunk where
  /-- The file that holds the data, when it is not that of the footer. -/
  filePath : Option String
  /-- The offset just behind the chunk; 0 until the chunk is complete. -/
  fileOffset : Int64
  /-- The description of the chunk. -/
  metadata : Option ColumnMetadata
deriving DecidableEq, Repr

namespace ColumnChunk

/-- A column chunk of which fields may be missing. -/
structure Draft where
  filePath : Option String
  fileOffset : Option Int64
  metadata : Option ColumnMetadata

/-- Encrypted metadata: there are no values of this type, and reading one fails. -/
def encryptedMetadata : Codec Empty where
  element := .binary
  wire := .binary
  read := Reader.fail (.unsupported "Encrypted column metadata is not supported")
  encode value := nomatch value
  fits _ := True

/-- The fields of a column chunk. -/
def layout : Layout ColumnChunk where
  Draft := Draft
  blank := ⟨none, none, none⟩
  fields := [
    ⟨1, String, .text, Draft.filePath, fun value draft => { draft with filePath := some value }⟩,
    ⟨2, Int64, .int64, Draft.fileOffset,
      fun value draft => { draft with fileOffset := some value }⟩,
    ⟨3, ColumnMetadata, ColumnMetadata.codec, Draft.metadata,
      fun value draft => { draft with metadata := some value }⟩,
    ⟨9, Empty, encryptedMetadata, fun _ => none, fun _ draft => draft⟩]
  draft record := ⟨record.filePath, some record.fileOffset, record.metadata⟩
  finish draft := do
    let fileOffset ← required "file_offset" draft.fileOffset
    return ⟨draft.filePath, fileOffset, draft.metadata⟩

/-- How column chunks are read and written. -/
def codec : Codec ColumnChunk := layout.codec

/-- The chunk of a column that was not started. -/
def empty : ColumnChunk := ⟨none, 0, none⟩

end ColumnChunk

end ParquetFooter.Record
