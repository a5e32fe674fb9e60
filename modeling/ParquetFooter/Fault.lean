import ParquetFooter.Wire.Types
import ParquetFooter.Text.Utf8
import ParquetFooter.Assembly.Stage

/-!
# What can go wrong

A `Fault` says why a footer cannot be read, checked or written; it is data, and `Fault.message` is
its wording. Faults of one kind share a type of causes: a `Defect` of the content, a `Shortfall` of
bytes, an `Inconsistency` between numbers that should agree, and a `Foreign` failure of something
the library relies on. Each of these has a case for a text of the caller's own.

A `Breach` is not a fault of the data: a caller asked for what the operation does not offer. Where
both are possible the result is a `Failure`.
-/

namespace ParquetFooter

open Wire

/-- What is wrong with the content of a footer, of a name, or of a call. -/
inductive Defect where
  /-- No field type has this code. -/
  | fieldType (code : UInt8)
  /-- No element type has this code. -/
  | elementType (code : UInt8)
  /-- A field id leaves the 16 bit range: this step from the id before it. -/
  | fieldId (step : UInt8) (last : Int16)
  /-- A list announces a negative size. -/
  | listSize (size : Int32)
  /-- A byte that is neither truth value. -/
  | truthValue (byte : UInt8)
  /-- A value of an unknown field is nested too deeply. -/
  | nestedValue (type : WireType)
  /-- A value of an unknown field has a type that cannot be stepped over. -/
  | unskippable (type : WireType)
  /-- A list in an unknown field has elements that cannot be stepped over. -/
  | unskippableElement (type : ElementType)
  /-- No value of the enumeration with this title has this code. -/
  | enumerationCode (title : String) (code : Int32)
  /-- A record lacks a field. -/
  | missingField (name : String)
  /-- No physical type has this name. -/
  | physicalTypeName (name : String)
  /-- No repetition has this name. -/
  | repetitionName (name : String)
  /-- No compression has this name; it is given in capitals. -/
  | compressionName (name : String)
  /-- A fixed length array needs a length. -/
  | fixedLength (length : Int32) (field : String)
  /-- A primitive element has no repetition. -/
  | primitiveWithoutRepetition
  /-- A group element below the root has no repetition. -/
  | groupWithoutRepetition
  /-- A group element counts its children by a negative number. -/
  | childCount (count : Int32) (group : String)
  /-- A schema nests more deeply than the limit. -/
  | schemaNesting (limit : Nat)
  /-- An element is needed past the end of the flattened schema. -/
  | elementIndex (index length : Nat)
  /-- A flattened schema holds a number of trees other than one. -/
  | rootCount (count : Nat)
  /-- The root of a schema is a primitive. -/
  | primitiveRoot
  /-- A row group has a number of columns other than the schema. -/
  | columnCount (expected rowGroup found : Nat)
  /-- A column chunk of a row group has no metadata. -/
  | columnWithoutMetadata (column rowGroup : Nat)
  /-- A column chunk to be viewed has no metadata. -/
  | chunkWithoutMetadata
  /-- A row group is no longer accepting columns. -/
  | closedRowGroup (stage : Stage)
  /-- The trailer of a file does not end in the magic bytes. -/
  | trailer
  /-- The length of a footer does not fit into its four bytes. -/
  | footerLength (length : Nat)
  /-- A defect that the caller words. -/
  | worded (text : String)
deriving DecidableEq, Repr

/-- The wording of a defect. -/
def Defect.message : Defect → String
  | fieldType code => s!"Unexpected struct field type {code}"
  | elementType code => s!"Unexpected list/set element type {code}"
  | fieldId step last => s!"cannot add {step} to {last}"
  | listSize size => s!"Negative list size {size}"
  | truthValue byte => s!"cannot convert {byte} into bool"
  | nestedValue type => s!"cannot parse past {type.name}"
  | unskippable type => s!"cannot skip field type {type.name}"
  | unskippableElement type => s!"Unexpected list element type {type.name}"
  | enumerationCode title code => s!"Unexpected {title} {code}"
  | missingField name => s!"Required field {name} is missing"
  | physicalTypeName name => s!"Invalid parquet type {name}"
  | repetitionName name => s!"Invalid parquet repetition {name}"
  | compressionName name => s!"unknown compression codec: {name}"
  | fixedLength length field =>
    s!"Invalid FIXED_LEN_BYTE_ARRAY length: {length} for field '{field}'"
  | primitiveWithoutRepetition => "Repetition level must be defined for a primitive type"
  | groupWithoutRepetition => "Repetition level must be defined for non-root types"
  | childCount count group => s!"Invalid number of children {count} for group '{group}'"
  | schemaNesting limit => s!"Schema nesting exceeds maximum depth of {limit}"
  | elementIndex index length => s!"Index out of bound, index = {index}, len = {length}"
  | rootCount count => s!"Expected exactly one root node, but found {count}"
  | primitiveRoot => "Root schema must be Group type"
  | columnCount expected rowGroup found =>
    s!"Column count mismatch. Schema has {expected} columns while Row Group {rowGroup} has {found}"
  | columnWithoutMetadata column rowGroup =>
    s!"Column {column} of Row Group {rowGroup} has no column metadata"
  | chunkWithoutMetadata => "Expected to have column metadata"
  | closedRowGroup stage =>
    s!"Row group metadata builder is {stage.name}, no further changes allowed"
  | trailer => "Invalid Parquet file. Corrupt footer"
  | footerLength length => s!"Metadata length {length} exceeds u32"
  | worded text => text

/-- Why bytes are missing. -/
inductive Shortfall where
  /-- A value goes on past the end of the input. -/
  | input
  /-- A source in memory ends before an offset. -/
  | offset (start length : Nat)
  /-- A source in memory ends before the end of a range. -/
  | range (count start length : Nat)
  /-- A file gives fewer bytes than asked for. -/
  | file (count read : Nat)
  /-- A shortfall that the caller words. -/
  | worded (text : String)
deriving DecidableEq, Repr

/-- The wording of a shortfall. -/
def Shortfall.message : Shortfall → String
  | input => "Unexpected EOF"
  | offset start length =>
    s!"Expected to read at offset {start}, source has only {length} bytes"
  | range count start length =>
    s!"Expected to read {count} bytes at offset {start}, source has only {length} bytes"
  | file count read => s!"Expected to read {count} bytes, read only {read}"
  | worded text => text

/-- Which numbers that should agree do not. -/
inductive Inconsistency where
  /-- The row counts of the row groups do not add up within 64 bits. -/
  | rowCountOverflow
  /-- The compressed sizes of the columns do not add up within 64 bits. -/
  | sizeOverflow
  /-- The bytes written for a row group are not those of its columns. -/
  | sizeMismatch (written columns : Int64)
  /-- An inconsistency that the caller words. -/
  | worded (text : String)
deriving DecidableEq, Repr

/-- The wording of an inconsistency. -/
def Inconsistency.message : Inconsistency → String
  | rowCountOverflow => "Row counts of row groups overflow i64"
  | sizeOverflow => "Compressed sizes of columns overflow i64"
  | sizeMismatch written columns =>
    s!"Total bytes in this RowGroup ({written}) does not match " ++
      s!"with compressed sizes of columns ({columns})"
  | worded text => text

/-- A failure of something outside: text decoding, a sink, a source. -/
inductive Foreign where
  /-- Bytes that should be text are not UTF-8. -/
  | notUtf8 (fault : Utf8.Fault)
  /-- A sink takes no more bytes. -/
  | sinkFull
  /-- A source ends before a buffer is filled. -/
  | sourceShort
  /-- A failure of a device, in its own words. -/
  | device (text : String)
deriving DecidableEq, Repr

/-- The wording of a foreign failure. -/
def Foreign.message : Foreign → String
  | notUtf8 fault => fault.message
  | sinkFull => "failed to write whole buffer"
  | sourceShort => "failed to fill whole buffer"
  | device text => text

/-- Why a footer cannot be read, checked or written. -/
inductive Fault where
  /-- The content is wrong. -/
  | defect (cause : Defect)
  /-- The content uses a feature that the library leaves out. -/
  | unsupported (feature : String)
  /-- Bytes are missing. -/
  | shortfall (cause : Shortfall)
  /-- A collection has no entry at this index. -/
  | indexOutOfBound (index bound : Nat)
  /-- Fewer parts are complete than there are. -/
  | incomplete (expected actual : Nat)
  /-- Numbers that should agree do not. -/
  | inconsistent (cause : Inconsistency)
  /-- Something outside failed. -/
  | foreign (cause : Foreign)
  /-- The last bytes of the file are needed, this many of them. -/
  | needMoreData (bytes : Nat)
deriving DecidableEq, Repr

namespace Fault

/-- The wording of a fault. -/
def message : Fault → String
  | defect cause => s!"Parquet error: {cause.message}"
  | unsupported feature => s!"NYI: {feature}"
  | shortfall cause => s!"EOF: {cause.message}"
  | indexOutOfBound index bound => s!"Index {index} out of bound: {bound}"
  | incomplete expected actual => s!"Incomplete metadata: {actual} of {expected} completed"
  | inconsistent cause => s!"Metadata consistency violation: {cause.message}"
  | foreign cause => s!"External: {cause.message}"
  | needMoreData bytes => s!"NeedMoreData: {bytes}"

/-- The wording of the failure outside that a fault reports, if it reports one. -/
def source? : Fault → Option String
  | foreign cause => some cause.message
  | _ => none

/-- A value goes on past the end of the input. -/
abbrev endOfInput : Fault := .shortfall .input

end Fault

/-- A failure as the input and output devices around the library report it. -/
structure DeviceError where
  kind : String
  message : String
deriving DecidableEq, Repr

/-- A fault passed on to a device is of no kind that a device has, and keeps its wording. -/
def Fault.toDeviceError (fault : Fault) : DeviceError := ⟨"Other", fault.message⟩

/-- A failure of a device reported as a fault keeps its wording. -/
def DeviceError.toFault (error : DeviceError) : Fault := .foreign (.device error.message)

/-- What a caller asked for although the operation does not offer it. -/
inductive Breach where
  /-- A dictionary encoding was chosen for values that are written without a dictionary. -/
  | dictionaryAsFallback
  /-- The repetition of a node that has none. -/
  | repetitionOf (node : String)
  | childrenOfPrimitive
  | physicalTypeOfGroup
  /-- What only a leaf has, asked of a column that was made from a group. -/
  | columnOfGroup
  /-- A schema whose root is a primitive. -/
  | schemaOfPrimitive
  /-- A schema in which a node below the root has no repetition. -/
  | levelsWithoutRepetition
  /-- A column that the schema does not have. -/
  | columnIndex (index count : Nat)
deriving DecidableEq, Repr

/-- The wording of a breach. -/
def Breach.message : Breach → String
  | dictionaryAsFallback => "Dictionary encoding can not be used as fallback encoding"
  | repetitionOf node => s!"Field '{node}' has no repetition"
  | childrenOfPrimitive => "Cannot call get_fields() on a non-group type"
  | physicalTypeOfGroup => "Cannot call get_physical_type() on a non-primitive type"
  | columnOfGroup => "Expected primitive type!"
  | schemaOfPrimitive => "SchemaDescriptor should take a GroupType"
  | levelsWithoutRepetition => "assertion failed: tp.get_basic_info().has_repetition()"
  | columnIndex index count => s!"Index out of bound: {index} not in [0, {count})"

/-- Why an operation that checks data and is bound by a contract gives no result. -/
inductive Failure where
  | fault (cause : Fault)
  /-- The contract was broken. -/
  | breach (cause : Breach)
deriving DecidableEq, Repr

/-- A fault in a step of an operation is a failure of it. -/
instance : MonadLift (Except Fault) (Except Failure) := ⟨Except.mapError .fault⟩

/-- A breach in a step of an operation is a failure of it. -/
instance : MonadLift (Except Breach) (Except Failure) := ⟨Except.mapError .breach⟩

end ParquetFooter
