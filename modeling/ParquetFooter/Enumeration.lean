import ParquetFooter.Fault
import ParquetFooter.Text.Uppercase

/-!
# Enumerations of the format

The closed sets of names that a footer refers to by number: physical types, repetitions, encodings
and compressions. `Enumeration` gives each its codes and names once; reading a code or a name is a
search through the values. `ofCode_code` says that every value is found by its own code.

A `FormatVersion` is chosen by a writer and recorded as a plain number, so it is no enumeration in
this sense.
-/

namespace ParquetFooter

/-- A closed set of names with their codes. -/
class Enumeration (α : Type) where
  /-- What the set is called in messages. -/
  title : String
  /-- All values, in the order of their codes. -/
  values : List α
  code : α → Int32
  name : α → String

namespace Enumeration

variable {α : Type} [Enumeration α]

/-- The value with a code. -/
def ofCode? (number : Int32) : Option α := values.find? fun value => code value == number

/-- The value with a code, or the defect that none has it. -/
def ofCode (number : Int32) : Except Fault α :=
  match ofCode? number with
  | some value => .ok value
  | none => .error (.defect (.enumerationCode (title α) number))

/-- The value with a name. -/
def ofName? (text : String) : Option α := values.find? fun value => name value == text

end Enumeration

/-- The types that a column is stored in. -/
inductive PhysicalType where
  | boolean | int32 | int64 | int96 | float | double | byteArray | fixedLenByteArray
deriving DecidableEq, Repr

/-- How often a field occurs in its parent. -/
inductive Repetition where
  /-- Exactly once. -/
  | required
  /-- At most once. -/
  | optional
  /-- Any number of times. -/
  | repeated
deriving DecidableEq, Repr

/-- How values are laid out in a page. -/
inductive Encoding where
  | plain | plainDictionary | rle | bitPacked | deltaBinaryPacked | deltaLengthByteArray
  | deltaByteArray | rleDictionary | byteStreamSplit
deriving DecidableEq, Repr

/-- How pages are compressed. -/
inductive Compression where
  | uncompressed | snappy | gzip | lzo | brotli | lz4 | zstd | lz4Raw
deriving DecidableEq, Repr

/-- The version of the format that a writer keeps to. -/
inductive FormatVersion where
  | v1 | v2
deriving DecidableEq, Repr

/-- Physical types. -/
instance : Enumeration PhysicalType where
  title := "Type"
  values := [.boolean, .int32, .int64, .int96, .float, .double, .byteArray, .fixedLenByteArray]
  code
    | .boolean => 0
    | .int32 => 1
    | .int64 => 2
    | .int96 => 3
    | .float => 4
    | .double => 5
    | .byteArray => 6
    | .fixedLenByteArray => 7
  name
    | .boolean => "BOOLEAN"
    | .int32 => "INT32"
    | .int64 => "INT64"
    | .int96 => "INT96"
    | .float => "FLOAT"
    | .double => "DOUBLE"
    | .byteArray => "BYTE_ARRAY"
    | .fixedLenByteArray => "FIXED_LEN_BYTE_ARRAY"

/-- Repetitions. -/
instance : Enumeration Repetition where
  title := "Repetition"
  values := [.required, .optional, .repeated]
  code
    | .required => 0
    | .optional => 1
    | .repeated => 2
  name
    | .required => "REQUIRED"
    | .optional => "OPTIONAL"
    | .repeated => "REPEATED"

/-- Encodings. The code 1 is not in use. -/
instance : Enumeration Encoding where
  title := "Encoding"
  values := [.plain, .plainDictionary, .rle, .bitPacked, .deltaBinaryPacked, .deltaLengthByteArray,
    .deltaByteArray, .rleDictionary, .byteStreamSplit]
  code
    | .plain => 0
    | .plainDictionary => 2
    | .rle => 3
    | .bitPacked => 4
    | .deltaBinaryPacked => 5
    | .deltaLengthByteArray => 6
    | .deltaByteArray => 7
    | .rleDictionary => 8
    | .byteStreamSplit => 9
  name
    | .plain => "PLAIN"
    | .plainDictionary => "PLAIN_DICTIONARY"
    | .rle => "RLE"
    | .bitPacked => "BIT_PACKED"
    | .deltaBinaryPacked => "DELTA_BINARY_PACKED"
    | .deltaLengthByteArray => "DELTA_LENGTH_BYTE_ARRAY"
    | .deltaByteArray => "DELTA_BYTE_ARRAY"
    | .rleDictionary => "RLE_DICTIONARY"
    | .byteStreamSplit => "BYTE_STREAM_SPLIT"

/-- Compressions. -/
instance : Enumeration Compression where
  title := "Compression"
  values := [.uncompressed, .snappy, .gzip, .lzo, .brotli, .lz4, .zstd, .lz4Raw]
  code
    | .uncompressed => 0
    | .snappy => 1
    | .gzip => 2
    | .lzo => 3
    | .brotli => 4
    | .lz4 => 5
    | .zstd => 6
    | .lz4Raw => 7
  name
    | .uncompressed => "UNCOMPRESSED"
    | .snappy => "SNAPPY"
    | .gzip => "GZIP"
    | .lzo => "LZO"
    | .brotli => "BROTLI"
    | .lz4 => "LZ4"
    | .zstd => "ZSTD"
    | .lz4Raw => "LZ4_RAW"

/-- An enumeration in which a value is found again by its code. -/
class LawfulEnumeration (α : Type) [Enumeration α] : Prop where
  /-- Every value is found by its own code. -/
  ofCode?_code (value : α) : Enumeration.ofCode? (Enumeration.code value) = some value

instance : LawfulEnumeration PhysicalType := ⟨by intro value; cases value <;> rfl⟩

instance : LawfulEnumeration Repetition := ⟨by intro value; cases value <;> rfl⟩

instance : LawfulEnumeration Encoding := ⟨by intro value; cases value <;> rfl⟩

instance : LawfulEnumeration Compression := ⟨by intro value; cases value <;> rfl⟩

/-- Every value is read from its own code. -/
theorem Enumeration.ofCode_code {α : Type} [Enumeration α] [LawfulEnumeration α] (value : α) :
    Enumeration.ofCode (Enumeration.code value) = .ok value := by
  simp [Enumeration.ofCode, LawfulEnumeration.ofCode?_code]

/-- The physical type with a name; byte arrays have a second one. -/
def PhysicalType.parse (text : String) : Except Fault PhysicalType :=
  if text = "BINARY" then .ok .byteArray
  else
    match Enumeration.ofName? text with
    | some type => .ok type
    | none => .error (.defect (.physicalTypeName text))

/-- The repetition with a name. -/
def Repetition.parse (text : String) : Except Fault Repetition :=
  match Enumeration.ofName? text with
  | some repetition => .ok repetition
  | none => .error (.defect (.repetitionName text))

/-- The compression with a name, in capitals or not. -/
def Compression.parse (text : String) : Except Fault Compression :=
  match Enumeration.ofName? (uppercase text) with
  | some compression => .ok compression
  | none => .error (.defect (.compressionName (uppercase text)))

/-- Whether values are stored as indices into a dictionary. -/
def Encoding.isDictionary : Encoding → Bool
  | plainDictionary | rleDictionary => true
  | _ => false

namespace FormatVersion

/-- The number of a version. -/
def number : FormatVersion → Int32
  | v1 => 1
  | v2 => 2

/-- The name of a version. -/
def name : FormatVersion → String
  | v1 => "PARQUET_1_0"
  | v2 => "PARQUET_2_0"

/-- A text that names no version. -/
structure Unknown where
  text : String
deriving DecidableEq, Repr

/-- The wording of an unknown version. -/
def Unknown.message (unknown : Unknown) : String := s!"Invalid writer version: {unknown.text}"

/-- The version with a name, all in capitals or all in small letters. -/
def parse (text : String) : Except Unknown FormatVersion :=
  if text = "PARQUET_1_0" ∨ text = "parquet_1_0" then .ok v1
  else if text = "PARQUET_2_0" ∨ text = "parquet_2_0" then .ok v2
  else .error ⟨text⟩

end FormatVersion

end ParquetFooter
