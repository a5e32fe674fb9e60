import ParquetFooter.Wire.Layout

/-!
# The key and value record

A piece of metadata that the writing application attaches: a key, and a value that may be missing.
-/

namespace ParquetFooter.Record

open Wire

/-- A key with the value attached to it. -/
structure KeyValue where
  key : String
  value : Option String
deriving DecidableEq, Repr

namespace KeyValue

/-- A key and value record of which fields may be missing. -/
structure Draft where
  key : Option String
  value : Option String

/-- The fields of a key and value record. -/
def layout : Layout KeyValue where
  Draft := Draft
  blank := ⟨none, none⟩
  fields := [
    ⟨1, String, .text, Draft.key, fun value draft => { draft with key := some value }⟩,
    ⟨2, String, .text, Draft.value, fun value draft => { draft with value := some value }⟩]
  draft record := ⟨some record.key, record.value⟩
  finish draft := do
    let key ← required "key" draft.key
    return ⟨key, draft.value⟩

/-- How keys and values are read and written. -/
def codec : Codec KeyValue := layout.codec

end KeyValue

end ParquetFooter.Record
