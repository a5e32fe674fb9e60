import ParquetFooter.Record.RowGroup
import ParquetFooter.Record.SchemaElement

/-!
# The footer record

The record that a whole footer is: the flattened schema and the row groups of a file. `decode` reads
one from the front of a byte string and says how many bytes it took; `encode` writes one.
-/

namespace ParquetFooter.Record

open Wire

/-- The content of a footer. -/
structure Footer where
  /-- The version of the format that the writer kept to. -/
  version : Int32
  /-- The nodes of the schema, parents before their children. -/
  schema : List SchemaElement
  /-- The number of rows of the file. -/
  numRows : Int64
  /-- The row groups, in the order of the file. -/
  rowGroups : List RowGroup
  /-- Keys and values attached to the file. -/
  keyValueMetadata : Option (List KeyValue)
  /-- The application that wrote the file. -/
  createdBy : Option String
deriving DecidableEq, Repr

namespace Footer

/-- A footer of which fields may be missing. -/
structure Draft where
  version : Option Int32
  schema : Option (List SchemaElement)
  numRows : Option Int64
  rowGroups : Option (List RowGroup)
  keyValueMetadata : Option (List KeyValue)
  createdBy : Option String

/-- The fields of a footer. -/
def layout : Layout Footer where
  Draft := Draft
  blank := ⟨none, none, none, none, none, none⟩
  fields := [
    ⟨1, Int32, .int32, Draft.version, fun value draft => { draft with version := some value }⟩,
    ⟨2, List SchemaElement, .list SchemaElement.codec, Draft.schema,
      fun value draft => { draft with schema := some value }⟩,
    ⟨3, Int64, .int64, Draft.numRows, fun value draft => { draft with numRows := some value }⟩,
    ⟨4, List RowGroup, .list RowGroup.codec, Draft.rowGroups,
      fun value draft => { draft with rowGroups := some value }⟩,
    ⟨5, List KeyValue, .list KeyValue.codec, Draft.keyValueMetadata,
      fun value draft => { draft with keyValueMetadata := some value }⟩,
    ⟨6, String, .text, Draft.createdBy, fun value draft => { draft with createdBy := some value }⟩]
  draft record :=
    ⟨some record.version, some record.schema, some record.numRows, some record.rowGroups,
      record.keyValueMetadata, record.createdBy⟩
  finish draft := do
    let version ← required "version" draft.version
    let schema ← required "schema" draft.schema
    let numRows ← required "num_rows" draft.numRows
    let rowGroups ← required "row_groups" draft.rowGroups
    return ⟨version, schema, numRows, rowGroups, draft.keyValueMetadata, draft.createdBy⟩

/-- How footers are read and written. -/
def codec : Codec Footer := layout.codec

/-- The bytes of a footer. -/
def encode (footer : Footer) : Bytes := codec.encode footer

/-- The footer at the front of some bytes and the number of bytes that it takes. -/
def decode (bytes : Bytes) : Except Fault (Footer × Nat) := do
  let (footer, rest) ← codec.read bytes
  return (footer, bytes.length - rest.length)

end Footer

end ParquetFooter.Record
