import ParquetFooter.Wire.Skip
import ParquetFooter.Enumeration

/-!
# Codecs

A `Codec` reads and writes the values of one type and knows the type codes that announce them, in a
list and in a record field. There is a codec for each plain type of the compact protocol, for text,
for enumerations, which are written as their codes, and for lists of what another codec writes.

A boolean is written as a byte where it is an element or stands alone. As a field it has no payload:
`encodeBoolField` writes its header only.

The format bounds what can be written: the size of a list is read as a signed 32 bit integer, and
the length of a byte string as a 64 bit word. `Codec.fits` says which values keep to that.
-/

namespace ParquetFooter.Wire

/-- Reads and writes the values of one type. -/
structure Codec (α : Type) where
  /-- The type of a list of such values. -/
  element : ElementType
  /-- The type of a field that holds such a value. -/
  wire : WireType
  read : Reader α
  encode : α → Bytes
  /-- Whether the sizes in a value are within the bounds of the format. -/
  fits : α → Prop

namespace Codec

variable {α : Type}

/-- The bytes of a field with its header, after a field with id `last`. -/
def encodeField (codec : Codec α) (id last : Int16) (value : α) : Bytes :=
  FieldHeader.encode codec.wire id last ++ codec.encode value

/-- Truth values outside field headers. -/
def bool : Codec Bool where
  element := .bool
  wire := .booleanTrue
  read := readBool
  encode value := [if value then 1 else 2]
  fits _ := True

/-- Signed bytes. -/
def int8 : Codec Int8 where
  element := .byte
  wire := .byte
  read := do return (← Reader.byte).toInt8
  encode value := [value.toUInt8]
  fits _ := True

/-- 16 bit integers. -/
def int16 : Codec Int16 where
  element := .int16
  wire := .int16
  read := readInt16
  encode value := encodeInt value.toInt64
  fits _ := True

/-- 32 bit integers. -/
def int32 : Codec Int32 where
  element := .int32
  wire := .int32
  read := readInt32
  encode value := encodeInt value.toInt64
  fits _ := True

/-- 64 bit integers. -/
def int64 : Codec Int64 where
  element := .int64
  wire := .int64
  read := readInt64
  encode := encodeInt
  fits _ := True

/-- Byte strings. -/
def bytes : Codec Bytes where
  element := .binary
  wire := .binary
  read := readBytes
  encode value := Vlq.encode value.length ++ value
  fits value := value.length < UInt64.size

/-- Texts. All bytes of a text are taken before they are looked at. -/
def text : Codec String where
  element := .binary
  wire := .binary
  read := do
    match Utf8.decode (← readBytes) with
    | .ok value => return value
    | .error fault => Reader.fail (.foreign (.notUtf8 fault))
  encode value := bytes.encode (Utf8.encode value)
  fits value := bytes.fits (Utf8.encode value)

/-- The values of an enumeration. -/
def enumeration (α : Type) [Enumeration α] : Codec α where
  element := .int32
  wire := .int32
  read := do Reader.ofExcept (Enumeration.ofCode (← readInt32))
  encode value := int32.encode (Enumeration.code value)
  fits _ := True

/-- Lists. The type in the header of a list is not compared with that of the values read. -/
def list (codec : Codec α) : Codec (List α) where
  element := .list
  wire := .list
  read := do
    let header ← ListHeader.read
    Reader.times codec.read header.size
  encode values := ListHeader.encode codec.element values.length ++ values.flatMap codec.encode
  fits values := values.length < Int32.size / 2 ∧ ∀ value ∈ values, codec.fits value

end Codec

/-- The header of a boolean field, which holds its value. -/
def encodeBoolField (id last : Int16) (value : Bool) : Bytes :=
  FieldHeader.encode (if value then .booleanTrue else .booleanFalse) id last

end ParquetFooter.Wire
