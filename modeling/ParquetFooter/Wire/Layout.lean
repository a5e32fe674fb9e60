import ParquetFooter.Wire.Codec

/-!
# Layouts of records

A record type is described by the table of its fields. While a record is read, what is known of it
is kept in a draft, in which every field may still be missing; reading ends with a check that the
required ones are there. A `RecordField` says how its value is stored in a draft and found there,
and a `Layout` joins the fields of a record in the order of their ids.

From a layout come both directions. `Layout.read` takes fields in any order, the last of several
with one id counts, a field with an id that is not in the table is stepped over by its type, and the
type of a field in the table is not looked at. `Layout.encode` writes the fields that are present in
the order of the table.
-/

namespace ParquetFooter.Wire

/-- A field of a record, as it is kept in a draft of the record. -/
structure RecordField (δ : Type) where
  id : Int16
  Value : Type
  codec : Codec Value
  value? : δ → Option Value
  /-- Puts a value into a draft. -/
  put : Value → δ → δ

/-- The fields of a record of type `ρ`. -/
structure Layout (ρ : Type) where
  /-- Records of which fields may be missing. -/
  Draft : Type
  /-- The draft without any field. -/
  blank : Draft
  /-- The fields, in the order of their ids. -/
  fields : List (RecordField Draft)
  /-- The draft of a whole record. -/
  draft : ρ → Draft
  /-- The record of a draft, or the first required field that it lacks. -/
  finish : Draft → Except Fault ρ

/-- The value of a required field. -/
def required {α : Type} (name : String) (value? : Option α) : Except Fault α :=
  match value? with
  | some value => .ok value
  | none => .error (.defect (.missingField name))

/-- Reads the value of a field into a draft. -/
def RecordField.read {δ : Type} (field : RecordField δ) (draft : δ) : Reader δ := do
  return field.put (← field.codec.read) draft

/-- The bytes of the fields that a draft has, after a field with id `last`, and of the stop. -/
def encodeFields {δ : Type} (draft : δ) : List (RecordField δ) → Int16 → Bytes
  | [], _ => FieldHeader.encodeStop
  | field :: fields, last =>
    match field.value? draft with
    | some value =>
      field.codec.encodeField field.id last value ++ encodeFields draft fields field.id
    | none => encodeFields draft fields last

namespace Layout

variable {ρ : Type} (layout : Layout ρ)

/-- The field with an id. -/
def field? (id : Int16) : Option (RecordField layout.Draft) :=
  layout.fields.find? fun field => field.id == id

/-- Reads the value behind a field header into a draft, or steps over it. -/
def readField (draft : layout.Draft) (header : FieldHeader) : Reader layout.Draft :=
  match layout.field? header.id with
  | some field => field.read draft
  | none => do
    skip header.type
    return draft

/-- Reads a record. -/
def read : Reader ρ := do
  let draft ← foldFields layout.readField layout.blank
  Reader.ofExcept (layout.finish draft)

/-- The bytes of a record. -/
def encode (value : ρ) : Bytes := encodeFields (layout.draft value) layout.fields 0

/-- Whether the sizes in the fields of a record are within the bounds of the format. -/
def fits (value : ρ) : Prop :=
  ∀ field ∈ layout.fields, ∀ content, field.value? (layout.draft value) = some content →
    field.codec.fits content

/-- The codec of a record. -/
def codec : Codec ρ where
  element := .struct
  wire := .struct
  read := layout.read
  encode := layout.encode
  fits := layout.fits

end Layout

end ParquetFooter.Wire
