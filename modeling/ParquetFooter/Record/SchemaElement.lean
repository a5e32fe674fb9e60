import ParquetFooter.Wire.Layout

/-!
# The schema element record

A node of a schema tree as a footer keeps it: the tree is written as the list of its nodes, parents
before their children, and a group gives the number of children that follow. Annotations of types
are left out.
-/

namespace ParquetFooter.Record

open Wire

/-- A node of a flattened schema. -/
structure SchemaElement where
  /-- The physical type of a primitive. -/
  type : Option PhysicalType
  /-- The length of the values of a fixed length primitive. -/
  typeLength : Option Int32
  /-- How often the node occurs in its parent. -/
  repetition : Option Repetition
  name : String
  /-- The number of children of a group. -/
  numChildren : Option Int32
  /-- An id given by the writer. -/
  fieldId : Option Int32
deriving DecidableEq, Repr

namespace SchemaElement

/-- A schema element of which fields may be missing. -/
structure Draft where
  type : Option PhysicalType
  typeLength : Option Int32
  repetition : Option Repetition
  name : Option String
  numChildren : Option Int32
  fieldId : Option Int32

/-- The fields of a schema element. -/
def layout : Layout SchemaElement where
  Draft := Draft
  blank := ⟨none, none, none, none, none, none⟩
  fields := [
    ⟨1, PhysicalType, .enumeration PhysicalType, Draft.type,
      fun value draft => { draft with type := some value }⟩,
    ⟨2, Int32, .int32, Draft.typeLength,
      fun value draft => { draft with typeLength := some value }⟩,
    ⟨3, Repetition, .enumeration Repetition, Draft.repetition,
      fun value draft => { draft with repetition := some value }⟩,
    ⟨4, String, .text, Draft.name, fun value draft => { draft with name := some value }⟩,
    ⟨5, Int32, .int32, Draft.numChildren,
      fun value draft => { draft with numChildren := some value }⟩,
    ⟨9, Int32, .int32, Draft.fieldId, fun value draft => { draft with fieldId := some value }⟩]
  draft record :=
    ⟨record.type, record.typeLength, record.repetition, some record.name, record.numChildren,
      record.fieldId⟩
  finish draft := do
    let name ← required "name" draft.name
    return ⟨draft.type, draft.typeLength, draft.repetition, name, draft.numChildren, draft.fieldId⟩

/-- How schema elements are read and written. -/
def codec : Codec SchemaElement := layout.codec

end SchemaElement

end ParquetFooter.Record
