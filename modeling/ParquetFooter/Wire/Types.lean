/-!
# Type codes of the compact protocol

A field of a record is announced by a `WireType`, an element of a list by an `ElementType`. The two
tables of codes do not coincide: the value of a boolean field is part of its type, while boolean
elements share one type with two codes, and only fields have the code that ends a record.
-/

namespace ParquetFooter.Wire

/-- The type in the header of a record field. -/
inductive WireType where
  | stop | booleanTrue | booleanFalse | byte | int16 | int32 | int64 | double | binary | list | set
  | map | struct
deriving DecidableEq, Repr

/-- The type in the header of a list. -/
inductive ElementType where
  | bool | byte | int16 | int32 | int64 | double | binary | list | set | map | struct
deriving DecidableEq, Repr

namespace WireType

/-- The code of a field type. -/
def code : WireType → UInt8
  | stop => 0
  | booleanTrue => 1
  | booleanFalse => 2
  | byte => 3
  | int16 => 4
  | int32 => 5
  | int64 => 6
  | double => 7
  | binary => 8
  | list => 9
  | set => 10
  | map => 11
  | struct => 12

/-- The field type with a code. -/
def ofCode? (code : UInt8) : Option WireType :=
  match code with
  | 0 => some stop
  | 1 => some booleanTrue
  | 2 => some booleanFalse
  | 3 => some byte
  | 4 => some int16
  | 5 => some int32
  | 6 => some int64
  | 7 => some double
  | 8 => some binary
  | 9 => some list
  | 10 => some set
  | 11 => some map
  | 12 => some struct
  | _ => none

/-- The name of a field type in messages. -/
def name : WireType → String
  | stop => "Stop"
  | booleanTrue => "BooleanTrue"
  | booleanFalse => "BooleanFalse"
  | byte => "Byte"
  | int16 => "I16"
  | int32 => "I32"
  | int64 => "I64"
  | double => "Double"
  | binary => "Binary"
  | list => "List"
  | set => "Set"
  | map => "Map"
  | struct => "Struct"

/-- The code of a field type is read as that type. -/
theorem ofCode?_code (type : WireType) : ofCode? type.code = some type := by
  cases type <;> rfl

end WireType

namespace ElementType

/-- The code that is written for an element type. -/
def code : ElementType → UInt8
  | bool => 2
  | byte => 3
  | int16 => 4
  | int32 => 5
  | int64 => 6
  | double => 7
  | binary => 8
  | list => 9
  | set => 10
  | map => 11
  | struct => 12

/-- The element type with a code. Writers disagree on the code of booleans, so both are read. -/
def ofCode? (code : UInt8) : Option ElementType :=
  match code with
  | 1 | 2 => some bool
  | 3 => some byte
  | 4 => some int16
  | 5 => some int32
  | 6 => some int64
  | 7 => some double
  | 8 => some binary
  | 9 => some list
  | 10 => some set
  | 11 => some map
  | 12 => some struct
  | _ => none

/-- The name of an element type in messages. -/
def name : ElementType → String
  | bool => "Bool"
  | byte => "Byte"
  | int16 => "I16"
  | int32 => "I32"
  | int64 => "I64"
  | double => "Double"
  | binary => "Binary"
  | list => "List"
  | set => "Set"
  | map => "Map"
  | struct => "Struct"

/-- The field type whose values are written like the elements of a list. Sets and maps have none:
no list of them occurs in a footer. -/
def wireType? : ElementType → Option WireType
  | bool => some .booleanTrue
  | byte => some .byte
  | int16 => some .int16
  | int32 => some .int32
  | int64 => some .int64
  | double => some .double
  | binary => some .binary
  | list => some .list
  | struct => some .struct
  | set | map => none

/-- The code of an element type is read as that type. -/
theorem ofCode?_code (type : ElementType) : ofCode? type.code = some type := by
  cases type <;> rfl

end ElementType

end ParquetFooter.Wire
