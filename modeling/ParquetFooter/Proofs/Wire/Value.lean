import ParquetFooter.Proofs.Wire.Header

/-! # Values of unknown fields

What a field that is not known holds is some `Value` of the compact protocol. Writers may encode it
in different ways: `Encodes` relates a value to all its encodings. Numbers may have more groups than
they need, headers come in two forms, and truth values among the elements of a list in three bytes.
Nothing ever looks into a map, so a map may have any bytes.

A part of a value lies inside so many of its structs, lists and sets (`Value.Inside`); some parts
are not stepped over anywhere (`Value.Refused`).
-/

namespace ParquetFooter.Wire

/-- A value of the compact protocol. -/
inductive Value where
  | bool (value : Bool)
  | byte (value : Int8)
  | int16 (value : Int16)
  | int32 (value : Int32)
  | int64 (value : Int64)
  /-- A floating-point number, by its eight bytes. -/
  | double (content : Bytes)
  | binary (content : Bytes)
  /-- A record, by the ids and values of its fields. -/
  | struct (fields : List (Int16 × Value))
  | list (type : ElementType) (elements : List Value)
  | set (type : ElementType) (elements : List Value)
  | map (content : Bytes)

namespace Value

/-- The type in the header of a field with this value. -/
def wireType : Value → WireType
  | bool value => if value then .booleanTrue else .booleanFalse
  | byte _ => .byte
  | int16 _ => .int16
  | int32 _ => .int32
  | int64 _ => .int64
  | double _ => .double
  | binary _ => .binary
  | struct _ => .struct
  | list _ _ => .list
  | set _ _ => .set
  | map _ => .map

/-- The type in the header of a list of such values. -/
def elementType : Value → ElementType
  | bool _ => .bool
  | byte _ => .byte
  | int16 _ => .int16
  | int32 _ => .int32
  | int64 _ => .int64
  | double _ => .double
  | binary _ => .binary
  | struct _ => .struct
  | list _ _ => .list
  | set _ _ => .set
  | map _ => .map

/-- No value is taken for the end of a record. -/
theorem wireType_ne_stop (value : Value) : value.wireType ≠ .stop := by
  intro stop
  cases value with
  | bool value => cases value <;> cases stop
  | _ => cases stop

end Value

/-- A byte stands for a truth value among the elements of a list. -/
inductive TruthByte : Bool → UInt8 → Prop
  | one : TruthByte true 1
  | zero : TruthByte false 0
  | two : TruthByte false 2

mutual

/-- The bytes encode a value behind the header of its field. A truth value is told by the header. -/
inductive Encodes : Value → Bytes → Prop
  | bool {value : Bool} : Encodes (.bool value) []
  | byte {value : Int8} : Encodes (.byte value) [value.toUInt8]
  | int16 {value : Int16} {bytes : Bytes}
      (spells : Vlq.Spells bytes (zigzag value.toInt64).toNat) : Encodes (.int16 value) bytes
  | int32 {value : Int32} {bytes : Bytes}
      (spells : Vlq.Spells bytes (zigzag value.toInt64).toNat) : Encodes (.int32 value) bytes
  | int64 {value : Int64} {bytes : Bytes}
      (spells : Vlq.Spells bytes (zigzag value).toNat) : Encodes (.int64 value) bytes
  | double {content : Bytes} (eight : content.length = 8) : Encodes (.double content) content
  | binary {content number : Bytes} (spells : Vlq.Spells number content.length)
      (bound : content.length < 2 ^ 64) : Encodes (.binary content) (number ++ content)
  | struct {fields : List (Int16 × Value)} {bytes : Bytes}
      (encodes : EncodesFields 0 fields bytes) : Encodes (.struct fields) bytes
  | list {type : ElementType} {elements : List Value} {header bytes : Bytes}
      (spells : ListHeader.Spells type elements.length header) (bound : elements.length < 2 ^ 31)
      (encodes : EncodesElements type elements bytes) :
      Encodes (.list type elements) (header ++ bytes)
  | set {type : ElementType} {elements : List Value} {header bytes : Bytes}
      (spells : ListHeader.Spells type elements.length header) (bound : elements.length < 2 ^ 31)
      (encodes : EncodesElements type elements bytes) :
      Encodes (.set type elements) (header ++ bytes)
  | map {content : Bytes} : Encodes (.map content) content

/-- The bytes encode the fields of a record after one with id `last`, and the stop. -/
inductive EncodesFields : Int16 → List (Int16 × Value) → Bytes → Prop
  | stop {last : Int16} : EncodesFields last [] FieldHeader.encodeStop
  | field {last id : Int16} {value : Value} {fields : List (Int16 × Value)}
      {header payload others : Bytes} (spells : FieldHeader.Spells value.wireType id last header)
      (encodes : Encodes value payload) (beside : EncodesFields id fields others) :
      EncodesFields last ((id, value) :: fields) (header ++ (payload ++ others))

/-- The bytes encode the elements of a list. -/
inductive EncodesElements : ElementType → List Value → Bytes → Prop
  | nil {type : ElementType} : EncodesElements type [] []
  | bool {value : Bool} {elements : List Value} {byte : UInt8} {others : Bytes}
      (told : TruthByte value byte) (beside : EncodesElements .bool elements others) :
      EncodesElements .bool (.bool value :: elements) ([byte] ++ others)
  | other {value : Value} {elements : List Value} {bytes others : Bytes}
      (notBool : value.elementType ≠ .bool) (encodes : Encodes value bytes)
      (beside : EncodesElements value.elementType elements others) :
      EncodesElements value.elementType (value :: elements) (bytes ++ others)

end

namespace EncodesFields

/-- Every field has an encoding of its own. -/
theorem part {last : Int16} {fields : List (Int16 × Value)} {bytes : Bytes}
    (encodes : EncodesFields last fields bytes) {id : Int16} {value : Value}
    (member : (id, value) ∈ fields) : ∃ payload, Encodes value payload := by
  induction fields generalizing last bytes with
  | nil => exact absurd member List.not_mem_nil
  | cons field fields ih =>
      cases encodes with
      | field _ encodes beside =>
          rcases List.mem_cons.mp member with same | later
          · cases same
            exact ⟨_, encodes⟩
          · exact ih beside later

end EncodesFields

namespace EncodesElements

/-- Every element has the type of the list, and could be the value of a field. -/
theorem part {type : ElementType} {elements : List Value} {bytes : Bytes}
    (encodes : EncodesElements type elements bytes) {value : Value} (member : value ∈ elements) :
    value.elementType = type ∧ ∃ payload, Encodes value payload := by
  induction elements generalizing bytes with
  | nil => exact absurd member List.not_mem_nil
  | cons element elements ih =>
      cases encodes with
      | bool told beside =>
          rcases List.mem_cons.mp member with rfl | later
          · exact ⟨rfl, [], .bool⟩
          · exact ih beside later
      | other notBool encodes beside =>
          rcases List.mem_cons.mp member with rfl | later
          · exact ⟨rfl, _, encodes⟩
          · exact ih beside later

end EncodesElements

namespace Value

/-- A part lies in a value inside so many structs, lists and sets. -/
inductive Inside (part : Value) : Nat → Value → Prop
  | self : Inside part 0 part
  | field {depth : Nat} {id : Int16} {value : Value} {fields : List (Int16 × Value)}
      (member : (id, value) ∈ fields) (inside : Inside part depth value) :
      Inside part (depth + 1) (struct fields)
  | listElement {depth : Nat} {type : ElementType} {value : Value} {elements : List Value}
      (member : value ∈ elements) (inside : Inside part depth value) :
      Inside part (depth + 1) (list type elements)
  | setElement {depth : Nat} {type : ElementType} {value : Value} {elements : List Value}
      (member : value ∈ elements) (inside : Inside part depth value) :
      Inside part (depth + 1) (set type elements)

/-- Maps are not stepped over, nor are sets and maps among the elements of a list or set. -/
def Refused : Value → Prop
  | list type elements | set type elements => (type = .set ∨ type = .map) ∧ elements ≠ []
  | map _ => True
  | _ => False

/-- There is nothing inside a truth value but itself. -/
theorem Inside.elementType_bool {part value : Value} {depth : Nat}
    (inside : Inside part depth value) (bool : value.elementType = .bool) :
    part.elementType = .bool := by
  cases inside with
  | self => exact bool
  | _ => cases bool

/-- Truth values are never refused. -/
theorem Refused.not_bool {value : Value} (refused : value.Refused) :
    value.elementType ≠ .bool := by
  intro bool
  cases value with
  | bool value => exact refused
  | _ => cases bool

end Value

end ParquetFooter.Wire
